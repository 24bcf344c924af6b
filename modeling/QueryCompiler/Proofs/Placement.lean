-- SUMMARY: Where keywords and parentheses stand: the keywords outside parentheses, and the pairs with nothing in them.
import QueryCompiler.Proofs.Emission

/-!
# Placement

A statement has a section when its keyword stands outside parentheses; what is
nested in it stands in parentheses. A phrase without the keyword at its own level
hides it, whatever is nested. Parentheses with nothing in them stand behind the
name of a function only, since every phrase has tokens and neither begins with a
closing parenthesis nor ends with an opening one.
-/

namespace QueryCompiler

variable {p : Profile} {F : Fragment → Prop} {K : Keyword → Bool} {k : Keyword} {depth : Nat}
  {a b ts : List (Token Value)}

/-! ## Keywords outside parentheses -/

/-- Whether a keyword stands outside parentheses, for a reader who is `depth` parentheses deep. -/
def Token.standsOutside (k : Keyword) (depth : Nat) : List (Token Value) → Bool
  | [] => false
  | .keyword j :: rest => (j = k && depth = 0) || standsOutside k depth rest
  | .symbol .lparen :: rest => standsOutside k (depth + 1) rest
  | .symbol .rparen :: rest => standsOutside k (depth - 1) rest
  | _ :: rest => standsOutside k depth rest

/-- Whether the keyword stands outside is told by what follows the tokens. -/
def Hides (k : Keyword) (depth : Nat) (ts : List (Token Value)) : Prop :=
  ∀ rest, Token.standsOutside k depth (ts ++ rest) = Token.standsOutside k depth rest

namespace Hides

theorem nil : Hides k depth [] := fun _ => rfl

theorem append (ha : Hides k depth a) (hb : Hides k depth b) : Hides k depth (a ++ b) := by
  intro rest
  rw [List.append_assoc, ha, hb]

theorem token {t : Token Value} (h : t.isPlain = true) : Hides k depth [t] := by
  intro rest
  cases t with
  | keyword j => cases h
  | symbol s => cases s <;> first | rfl | cases h
  | _ => rfl

theorem cons {t : Token Value} (h : t.isPlain = true) (hb : Hides k depth b) : Hides k depth (t :: b) :=
  (token h).append hb

theorem plain (h : ∀ t ∈ ts, t.isPlain = true) : Hides k depth ts := by
  induction ts with
  | nil => exact nil
  | cons t rest ih =>
    rw [List.forall_mem_cons] at h
    exact cons h.1 (ih h.2)

theorem keyword {j : Keyword} (h : 0 < depth ∨ j ≠ k) : Hides k depth [.keyword j] := by
  intro rest
  have hnot : (decide (j = k) && decide (depth = 0)) = false := by
    rcases h with h | h
    · simp [Nat.ne_of_gt h]
    · simp [h]
  simp only [List.singleton_append, Token.standsOutside, hnot, Bool.false_or]

theorem parenthesized (h : Hides k (depth + 1) ts) : Hides k depth (Token.parenthesized ts) := by
  intro rest
  have hinner := h (.symbol .rparen :: rest)
  rw [Token.parenthesized, List.append_assoc, List.cons_append, Token.standsOutside]
  exact hinner

end Hides

/-- A phrase hides a keyword that it does not have outside parentheses, and in parentheses every one. -/
theorem Phrase.hides (h : Phrase p F K ts) (hk : 0 < depth ∨ K k = false) : Hides k depth ts := by
  induction h generalizing depth with
  | word h => exact .token h.isPlain
  | @keyword K j h =>
    refine .keyword (hk.imp_right fun hk hj => ?_)
    rw [hj, hk] at h
    cases h
  | fragment _ h => exact .plain (Fragment.isPlain_of_mem_tokens h)
  | spaced _ _ iha ihb => exact (iha hk).append (.cons rfl (ihb hk))
  | dotted _ _ iha ihb => exact (iha hk).append (.cons rfl (ihb hk))
  | listed _ _ iha ihb => exact (iha hk).append (.cons rfl (.cons rfl (ihb hk)))
  | enclosed _ ih => exact .parenthesized (ih (.inl (Nat.succ_pos depth)))
  | call hf => exact .cons rfl (.parenthesized .nil)
  | applied hf _ ih => exact .cons rfl (.parenthesized (ih (.inl (Nat.succ_pos depth))))

/-- A section with another keyword. -/
theorem hides_sectionOf {j : Keyword} (hj : j ≠ k) (hk : K k = false) (h : ts = [] ∨ Phrase p F K ts) :
    Hides k 0 (Token.sectionOf j ts) := by
  unfold Token.sectionOf
  split
  · exact .nil
  next hne =>
    have hphrase : Phrase p F K ts := h.resolve_left fun hnil => hne (by simp [hnil])
    have hspaced : Hides k 0 (Token.spaced j) := .cons rfl ((Hides.keyword (.inr hj)).append (.token rfl))
    exact hspaced.append (hphrase.hides (.inr hk))

/-- A section has its own keyword outside parentheses unless it is left out. -/
theorem standsOutside_sectionOf (ha : Hides k 0 a) (hb : Hides k 0 b) (body : List (Token Value)) :
    Token.standsOutside k 0 (a ++ Token.sectionOf k body ++ b) = !body.isEmpty := by
  have hafter : Token.standsOutside k 0 b = false := by
    have hb := hb []
    rwa [List.append_nil] at hb
  rw [List.append_assoc, ha]
  unfold Token.sectionOf
  split
  next hempty => rw [hempty, List.nil_append, hafter, Bool.not_true]
  next hempty => simp [hempty, Token.spaced, Token.standsOutside]

/-! ## Empty pairs of parentheses -/

/-- Parentheses with nothing in them stand only behind the name of a function. -/
def Token.EmptyPairsCalled (ts : List (Token Value)) : Prop :=
  ∀ before after, ts = before ++ parenthesized [] ++ after → ∃ start f, before = start ++ [.function f]

theorem emptyPairsCalled_nil : Token.EmptyPairsCalled [] := by
  intro before after h
  simp [Token.parenthesized] at h

theorem emptyPairsCalled_singleton (t : Token Value) : Token.EmptyPairsCalled [t] := by
  intro before after h
  have hlength := congrArg List.length h
  simp [Token.parenthesized] at hlength
  omega

/-- Two parts, of which the first does not end with an opening parenthesis or the second does not begin
with a closing one. -/
theorem emptyPairsCalled_append (ha : Token.EmptyPairsCalled a) (hb : Token.EmptyPairsCalled b)
    (hab : a.getLast? ≠ some (.symbol .lparen) ∨ b.head? ≠ some (.symbol .rparen)) :
    Token.EmptyPairsCalled (a ++ b) := by
  intro before after h
  rw [List.append_assoc, List.append_eq_append_iff] at h
  rcases h with ⟨mid, hbefore, hmid⟩ | ⟨mid, hmid, hafter⟩
  -- The pair stands in the second part.
  · obtain ⟨start, f, rfl⟩ := hb mid after (by rw [hmid, List.append_assoc])
    exact ⟨a ++ start, f, by rw [hbefore, List.append_assoc]⟩
  · match mid with
    | [] =>
      obtain ⟨start, f, hstart⟩ := hb [] after (by simpa using hafter.symm)
      simp at hstart
    | [t] =>
      -- The parts meet inside the pair.
      simp only [Token.parenthesized, List.cons_append, List.nil_append, List.cons.injEq] at hafter
      obtain ⟨rfl, rfl⟩ := hafter
      simp [hmid] at hab
    | t :: t' :: more =>
      simp only [Token.parenthesized, List.cons_append, List.nil_append, List.cons.injEq] at hafter
      obtain ⟨rfl, rfl, -⟩ := hafter
      exact ha before more (by simp [hmid, Token.parenthesized])

/-- There are tokens, they neither begin with a closing parenthesis nor end with an opening one, and
empty pairs in them are called. -/
structure WellPaired (ts : List (Token Value)) : Prop where
  ne_nil : ts ≠ []
  head : ts.head? ≠ some (.symbol .rparen)
  last : ts.getLast? ≠ some (.symbol .lparen)
  pairs : Token.EmptyPairsCalled ts

namespace WellPaired

theorem token {t : Token Value} (hopen : t ≠ .symbol .lparen) (hclose : t ≠ .symbol .rparen) :
    WellPaired [t] where
  ne_nil := by simp
  head := by simpa using hclose
  last := by simpa using hopen
  pairs := emptyPairsCalled_singleton t

theorem append (ha : WellPaired a) (hb : WellPaired b) : WellPaired (a ++ b) where
  ne_nil := by simp [ha.ne_nil]
  head := by
    rw [List.head?_append_of_ne_nil _ ha.ne_nil]
    exact ha.head
  last := by
    rw [List.getLast?_append_of_ne_nil _ hb.ne_nil]
    exact hb.last
  pairs := emptyPairsCalled_append ha.pairs hb.pairs (.inl ha.last)

theorem cons {t : Token Value} (hopen : t ≠ .symbol .lparen) (hclose : t ≠ .symbol .rparen)
    (hb : WellPaired b) : WellPaired (t :: b) :=
  (token hopen hclose).append hb

theorem plain (hne : ts ≠ []) (h : ∀ t ∈ ts, t.isPlain = true) : WellPaired ts := by
  have htoken : ∀ t, t.isPlain = true → WellPaired [t] := by
    intro t ht
    refine token ?_ ?_ <;> rintro rfl <;> cases ht
  induction ts with
  | nil => exact absurd rfl hne
  | cons t rest ih =>
    rw [List.forall_mem_cons] at h
    by_cases hrest : rest = []
    · rw [hrest]
      exact htoken t h.1
    · exact (htoken t h.1).append (ih hrest h.2)

theorem parenthesized (h : WellPaired ts) : WellPaired (Token.parenthesized ts) where
  ne_nil := by simp [Token.parenthesized]
  head := by simp [Token.parenthesized]
  last := by
    rw [Token.parenthesized, List.getLast?_concat]
    simp
  pairs := by
    have hopen : Token.EmptyPairsCalled (.symbol .lparen :: ts) :=
      emptyPairsCalled_append (emptyPairsCalled_singleton _) h.pairs (.inr h.head)
    refine emptyPairsCalled_append hopen (emptyPairsCalled_singleton _) (.inl ?_)
    rw [List.getLast?_cons_of_ne_nil h.ne_nil]
    exact h.last

/-- A call without arguments. -/
theorem call (f : String) : WellPaired (.function f :: Token.parenthesized []) where
  ne_nil := by simp
  head := by simp
  last := by simp [Token.parenthesized]
  pairs := by
    intro before after h
    match before with
    | [] => simp [Token.parenthesized] at h
    | [t] =>
      simp only [Token.parenthesized, List.cons_append, List.nil_append, List.cons.injEq] at h
      exact ⟨[], f, by rw [← h.1]; rfl⟩
    | t :: t' :: more =>
      have hlength := congrArg List.length h
      simp [Token.parenthesized] at hlength
      omega

end WellPaired

theorem Phrase.wellPaired (h : Phrase p F K ts) : WellPaired ts := by
  induction h with
  | word h => exact .plain (by simp) (by simpa using h.isPlain)
  | keyword _ => exact .token (by simp) (by simp)
  | fragment _ h => exact .plain (Fragment.tokens_ne_nil h) (Fragment.isPlain_of_mem_tokens h)
  | spaced _ _ iha ihb => exact iha.append (.cons (by simp) (by simp) ihb)
  | dotted _ _ iha ihb => exact iha.append (.cons (by simp) (by simp) ihb)
  | listed _ _ iha ihb =>
    exact iha.append (.cons (by simp) (by simp) (.cons (by simp) (by simp) ihb))
  | enclosed _ ih => exact ih.parenthesized
  | call _ => exact .call _
  | applied _ _ ih => exact .cons (by simp) (by simp) ih.parenthesized

/-! ## Sections of conditions -/

theorem Condition.allVacuous_eq_false {σ : Type} {list : List (Condition σ)} :
    Condition.allVacuous list = false ↔ ∃ c ∈ list, c.isVacuous = false := by
  induction list with
  | nil => simp [Condition.allVacuous]
  | cons c rest ih =>
    rw [Condition.allVacuous, Bool.and_eq_false_iff, ih]
    simp

/-- Nothing is emitted exactly for a list of empty groups. -/
theorem Condition.isEmpty_listTokens {list : List (Condition Nested)}
    (hlist : ∀ c ∈ list, (∀ n ∈ c.nested, n.IsPhrase p F) ∧ ∀ f ∈ c.fragments, F f)
    (h : Condition.listTokens p list = .ok ts) : ts.isEmpty = Condition.allVacuous list := by
  obtain ⟨hall, rfl⟩ | ⟨hall, hphrase⟩ := Sections.Holds.phrase_listTokens hlist h
  · rw [hall]
    rfl
  · rw [hall]
    simpa using hphrase.wellPaired.ne_nil

section

variable {t : Target} {s : Sections Nested} {shape : Shape}

theorem standsOutside_where (hs : s.Holds (Nested.IsPhrase t.profile F) F)
    (h : selectTokens t s shape = .ok ts) :
    Token.standsOutside .where_ 0 ts = !Condition.allVacuous s.filters := by
  obtain ⟨head, filter, groups, having, order, rfl, hhead, hfilter, hgroups, hhaving, horder⟩ :=
    selectTokens_eq hs h
  have hbefore : Hides .where_ 0 head := hhead.hides (.inr rfl)
  have hgroupBy : Hides .where_ 0 (Token.sectionOf .groupBy groups) :=
    hides_sectionOf (by decide) rfl (phrase_groupingTokens hs.groups hgroups)
  have hhaving : Hides .where_ 0 (Token.sectionOf .having having) :=
    hides_sectionOf (by decide) rfl (Sections.Holds.nil_or_phrase hs.havings hhaving)
  have horderBy : Hides .where_ 0 (Token.sectionOf .orderBy order) :=
    hides_sectionOf (by decide) rfl (phrase_orderTokens hs.orders horder)
  have hafter := (hgroupBy.append hhaving).append horderBy
  rw [← Condition.isEmpty_listTokens hs.filters hfilter, ← standsOutside_sectionOf hbefore hafter filter]
  simp only [List.append_assoc]

theorem standsOutside_having (hs : s.Holds (Nested.IsPhrase t.profile F) F)
    (h : selectTokens t s shape = .ok ts) :
    Token.standsOutside .having 0 ts = !Condition.allVacuous s.havings := by
  obtain ⟨head, filter, groups, having, order, rfl, hhead, hfilter, hgroups, hhaving, horder⟩ :=
    selectTokens_eq hs h
  have hwhere : Hides .having 0 (Token.sectionOf .where_ filter) :=
    hides_sectionOf (by decide) rfl (Sections.Holds.nil_or_phrase hs.filters hfilter)
  have hgroupBy : Hides .having 0 (Token.sectionOf .groupBy groups) :=
    hides_sectionOf (by decide) rfl (phrase_groupingTokens hs.groups hgroups)
  have hbefore := ((hhead.hides (.inr rfl)).append hwhere).append hgroupBy
  have hafter : Hides .having 0 (Token.sectionOf .orderBy order) :=
    hides_sectionOf (by decide) rfl (phrase_orderTokens hs.orders horder)
  rw [standsOutside_sectionOf hbefore hafter, Condition.isEmpty_listTokens hs.havings hhaving]

end

/-- A cross join has no conditions. -/
theorem Join.conditions_of_check {j : Join Nested} (hkind : j.kind = .cross) (h : j.check p = .ok ()) :
    j.conditions = [] := by
  unfold Join.check at h
  rw [hkind] at h
  dsimp only at h
  split at h
  next hempty => simpa using hempty
  next => cases h

theorem standsOutside_on {j : Join Nested} (hn : ∀ n ∈ j.nested, n.IsPhrase p F)
    (hf : ∀ f ∈ j.fragments, F f) (h : j.tokens p = .ok ts) :
    Token.standsOutside .on 0 ts = !Condition.allVacuous j.conditions := by
  obtain ⟨head, conditions, rfl, hhead, hcheck, hconditions⟩ := Join.tokens_eq hn hf h
  have hbefore : Hides .on 0 (.space :: head) := .cons rfl (hhead.hides (.inr rfl))
  rw [Join.nested, List.forall_mem_append] at hn
  rw [Join.fragments, List.forall_mem_append] at hf
  unfold Join.conditionTokens at hconditions
  split at hconditions
  next hkind =>
    cases hconditions
    have hhidden := hbefore []
    rw [Join.conditions_of_check hkind hcheck]
    exact hhidden
  next =>
    obtain ⟨tokens, htokens, hconditions⟩ := bind_eq_ok hconditions
    split at hconditions
    next => cases hconditions
    next hne =>
      cases hconditions
      obtain ⟨-, rfl⟩ | ⟨hall, -⟩ := Condition.phrase_listTokens hn.2 hf.2 htokens
      · exact absurd rfl hne
      · have hsection := standsOutside_sectionOf hbefore Hides.nil tokens
        rw [Token.sectionOf, if_neg hne, List.append_nil] at hsection
        rw [hall, hsection]
        simpa using hne

end QueryCompiler
