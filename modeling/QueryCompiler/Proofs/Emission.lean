-- SUMMARY: Everything that is emitted is a phrase: one lemma for each emitter, from names up to whole statements.
import QueryCompiler.Proofs.Phrase

/-!
# Emissions are phrases

The lemmas follow the emitters from the inside out. Each takes what it needs to
know of the raw fragments and of the nested queries from the part it is about,
and `Query.phrase_tokens` closes the circle by induction on the nesting.
-/

namespace QueryCompiler

variable {p : Profile} {F : Fragment → Prop} {K : Keyword → Bool} {ts : List (Token Value)}

/-- A nested query that is emitted as a phrase, if at all. -/
def Nested.IsPhrase (p : Profile) (F : Fragment → Prop) (n : Nested) : Prop :=
  ∀ ts, n.statement = .ok ts → Phrase p F Keyword.any ts

/-! ## Names -/

theorem isWord_segmentToken (p : Profile) (cs : List Char) : p.IsWord (p.segmentToken cs) := by
  unfold Profile.segmentToken
  split
  · exact .star
  · split
    next h => exact .quoted h
    next => exact .ident _

theorem phrase_aliasToken (name : String) : Phrase p F K [p.aliasToken name] :=
  .word (isWord_segmentToken p _)

theorem phrase_reference (name : String) : Phrase p F K (p.reference name) := by
  have hne : p.quotes.split (Text.trim name.toList) ≠ [] := p.quotes.splitFrom_ne_nil .outside _
  refine Phrase.intersperse_dot ?_ ?_
  · simpa using hne
  · intro t ht
    obtain ⟨cs, -, rfl⟩ := List.mem_map.1 ht
    exact isWord_segmentToken p _

theorem phrase_checkedReference {place : NamePlace} {name : String}
    (h : p.checkedReference place name = .ok ts) : Phrase p F K ts := by
  unfold Profile.checkedReference at h
  obtain ⟨-, -, h⟩ := bind_eq_ok h
  cases h
  exact phrase_reference name

theorem tail_tableAlias (hK : K .as = true) (name : String) : Tail p F K (p.tableAlias name) := by
  unfold Profile.tableAlias
  split
  · exact .spaced hK (phrase_aliasToken name)
  · exact .space (phrase_aliasToken name)

theorem phrase_table (hK : K .as = true) (name : String) (aliasName : Option String) :
    Phrase p F K (p.table name aliasName) := by
  unfold Profile.table
  split
  · exact (phrase_reference name).append (tail_tableAlias hK _)
  · split
    · exact (phrase_reference _).append (tail_tableAlias hK _)
    · exact phrase_reference _

theorem tail_aliasTokens (hK : K .as = true) (aliasName : Option String) :
    Tail p F K (aliasTokens p aliasName) := by
  cases aliasName with
  | none => exact .nil
  | some name => exact .spaced hK (phrase_aliasToken name)

/-! ## Conditions -/

theorem Nested.phrase_tokens {n : Nested} (hn : n.IsPhrase p F) (h : n.tokens = .ok ts) :
    Phrase p F K ts := by
  obtain ⟨inner, hinner, rfl⟩ := map_eq_ok h
  exact .enclosed (hn inner hinner)

theorem tail_notAfter (hK : K .not = true) (negated : Bool) : Tail p F K (Token.notAfter negated) := by
  cases negated with
  | false => exact .nil
  | true => exact .space (.keyword hK)

theorem phrase_notBefore (hK : K .not = true) (negated : Bool) (h : Phrase p F K ts) :
    Phrase p F K (Token.notBefore negated ++ ts) := by
  cases negated with
  | false => exact h
  | true => exact .spaced (.keyword hK) h

theorem Operand.phrase_tokens {operand : Operand Nested} (hn : ∀ n ∈ operand.nested, n.IsPhrase p F)
    (hf : ∀ f ∈ operand.fragments, F f) (h : operand.tokens p = .ok ts) : Phrase p F K ts := by
  cases operand with
  | value v =>
    cases h
    exact .word (.param v)
  | column name => exact phrase_checkedReference h
  | query q => exact Nested.phrase_tokens (hn q (List.mem_singleton_self q)) h
  | raw fragment => exact .fragment (hf fragment (List.mem_singleton_self fragment)) h

/-- A relation after its column: the words in between, then what the column is related to. -/
private theorem phrase_relation {column rest : List (Token Value)} {k : Keyword}
    (hk : k.isInner = true) (negated : Bool) (hcolumn : Phrase p F Keyword.isInner column)
    (hrest : Phrase p F Keyword.isInner rest) :
    Phrase p F Keyword.isInner (column ++ Token.notAfter negated ++ Token.spaced k ++ rest) := by
  rw [List.append_assoc]
  exact (hcolumn.append (tail_notAfter rfl negated)).append (.spaced hk hrest)

theorem phrase_nullTest {column : List (Token Value)} (isNull : Bool)
    (h : Phrase p F Keyword.isInner column) : Phrase p F Keyword.isInner (nullTest column isNull) := by
  cases isNull with
  | false => exact .spaced h (.keyword rfl)
  | true => exact .spaced h (.keyword rfl)

theorem phrase_comparison {negated : Bool} {column : String} {op : Comparison}
    {operand : Operand Nested} (hn : ∀ n ∈ operand.nested, n.IsPhrase p F)
    (hf : ∀ f ∈ operand.fragments, F f) (h : comparison p negated column op operand = .ok ts) :
    Phrase p F Keyword.isInner ts := by
  unfold comparison at h
  obtain ⟨subject, hsubject, h⟩ := bind_eq_ok h
  split at h
  · cases h
    exact phrase_nullTest _ (phrase_checkedReference hsubject)
  · obtain ⟨object, hobject, h⟩ := bind_eq_ok h
    have htest : Phrase p F Keyword.isInner
        (subject ++ [.space, .symbol op.symbol, .space] ++ object) := by
      have hobject : Phrase p F Keyword.isInner object := operand.phrase_tokens hn hf hobject
      simpa using (phrase_checkedReference hsubject).spaced ((Phrase.word (.comparison op)).spaced hobject)
    cases h
    split
    · exact phrase_notBefore rfl true (.enclosed htest)
    · exact htest

theorem phrase_constantTest (holds : Bool) : Phrase p F K (constantTest holds) := by
  cases holds with
  | false => exact .spaced (.word .one) (.spaced (.word (.comparison .eq)) (.word .zero))
  | true => exact .spaced (.word .one) (.spaced (.word (.comparison .eq)) (.word .one))

theorem phrase_membership {negated : Bool} {column : String} {values : List Value}
    (h : membership p negated column values = .ok ts) : Phrase p F Keyword.isInner ts := by
  unfold membership at h
  obtain ⟨subject, hsubject, h⟩ := bind_eq_ok h
  split at h
  · cases h
    exact phrase_constantTest negated
  next hvalues =>
    cases h
    refine phrase_relation rfl negated (phrase_checkedReference hsubject) (.enclosed (J := Keyword.any) ?_)
    apply Phrase.commaSeparated (by simpa using hvalues)
    intro group hgroup
    obtain ⟨v, -, rfl⟩ := List.mem_map.1 hgroup
    exact .word (.param v)

theorem phrase_patternMatch {negated : Bool} {column pattern : String} {caseSensitive : Bool}
    (h : patternMatch p negated column pattern caseSensitive = .ok ts) :
    Phrase p F Keyword.isInner ts := by
  unfold patternMatch at h
  obtain ⟨subject, hsubject, h⟩ := bind_eq_ok h
  have hsubject : Phrase p F Keyword.isInner subject := phrase_checkedReference hsubject
  cases h
  cases caseSensitive with
  | true => exact phrase_relation rfl negated hsubject (.word (.param _))
  | false =>
    cases p.caselessMatch with
    | ilike => exact phrase_relation rfl negated hsubject (.word (.param _))
    | lowerCase => exact phrase_relation rfl negated (.applied .lower hsubject) (.word (.param _))

theorem Phrase.connect {list : List (Connector × List (Token Value))} (hne : list ≠ [])
    (h : ∀ entry ∈ list, Phrase p F Keyword.isInner entry.2) :
    Phrase p F Keyword.isInner (QueryCompiler.connect list) := by
  obtain ⟨⟨_, first⟩, rest, rfl⟩ := List.exists_cons_of_ne_nil hne
  refine (h _ List.mem_cons_self).append ?_
  rw [List.flatMap_def]
  apply Tail.flatten
  intro group hgroup
  obtain ⟨entry, hentry, rfl⟩ := List.mem_map.1 hgroup
  exact .spaced (by cases entry.1 <;> rfl) (h entry (List.mem_cons_of_mem _ hentry))

mutual

theorem Condition.phrase_tokens {condition : Condition Nested} {ts : List (Token Value)}
    (hn : ∀ n ∈ condition.nested, n.IsPhrase p F) (hf : ∀ f ∈ condition.fragments, F f)
    (hv : condition.isVacuous = false) (h : condition.tokens p = .ok ts) :
    Phrase p F Keyword.isInner ts :=
  match condition with
  | ⟨_, _, _⟩ => Predicate.phrase_tokens hn hf hv h

theorem Predicate.phrase_tokens {negated : Bool} {predicate : Predicate Nested (Condition Nested)}
    {ts : List (Token Value)} (hn : ∀ n ∈ Predicate.nested predicate, n.IsPhrase p F)
    (hf : ∀ f ∈ Predicate.fragments predicate, F f) (hv : Predicate.isVacuous predicate = false)
    (h : Predicate.tokens p negated predicate = .ok ts) : Phrase p F Keyword.isInner ts := by
  match predicate with
  | .compare column op operand => exact phrase_comparison hn hf h
  | .inValues column values => exact phrase_membership h
  | .inQuery column q =>
    obtain ⟨subject, hsubject, h⟩ := bind_eq_ok h
    obtain ⟨query, hquery, h⟩ := bind_eq_ok h
    cases h
    exact phrase_relation rfl negated (phrase_checkedReference hsubject)
      (Nested.phrase_tokens (hn q (List.mem_singleton_self q)) hquery)
  | .between column low high =>
    obtain ⟨subject, hsubject, h⟩ := bind_eq_ok h
    cases h
    have hbounds : Phrase p F Keyword.isInner
        ([Token.value low] ++ Token.spaced .and ++ [Token.value high]) :=
      .spaced (.word (.param low)) (.spaced (.keyword rfl) (.word (.param high)))
    simpa using phrase_relation (k := .between) rfl negated (phrase_checkedReference hsubject) hbounds
  | .isNull column =>
    obtain ⟨subject, hsubject, h⟩ := bind_eq_ok h
    cases h
    exact phrase_nullTest _ (phrase_checkedReference hsubject)
  | .like column pattern caseSensitive => exact phrase_patternMatch h
  | .exists q =>
    obtain ⟨query, hquery, h⟩ := bind_eq_ok h
    cases h
    have hquery := Nested.phrase_tokens (K := Keyword.isInner) (hn q (List.mem_singleton_self q)) hquery
    simpa using phrase_notBefore rfl negated (Phrase.spaced (.keyword (k := .exists) rfl) hquery)
  | .group members =>
    obtain ⟨list, hlist, h⟩ := bind_eq_ok h
    cases h
    have hmembers := Condition.phrase_tokensEach hn hf hlist
    exact phrase_notBefore rfl negated (.enclosed (Phrase.connect (hmembers.1 hv) hmembers.2))
  | .raw fragment =>
    obtain ⟨tokens, htokens, h⟩ := bind_eq_ok h
    have hfragment : Phrase p F Keyword.isInner tokens :=
      .fragment (hf fragment (List.mem_singleton_self fragment)) htokens
    cases h
    split
    · exact phrase_notBefore rfl true (.enclosed hfragment)
    · exact hfragment

/-- Something is emitted for a list with a condition that is no empty group. -/
theorem Condition.phrase_tokensEach {list : List (Condition Nested)}
    {emitted : List (Connector × List (Token Value))}
    (hn : ∀ n ∈ Condition.nestedList list, n.IsPhrase p F)
    (hf : ∀ f ∈ Condition.fragmentsList list, F f) (h : Condition.tokensEach p list = .ok emitted) :
    (Condition.allVacuous list = false → emitted ≠ []) ∧
      ∀ entry ∈ emitted, Phrase p F Keyword.isInner entry.2 := by
  match list with
  | [] =>
    cases h
    simp [Condition.allVacuous]
  | condition :: rest =>
    rw [Condition.nestedList, List.forall_mem_append] at hn
    rw [Condition.fragmentsList, List.forall_mem_append] at hf
    rw [Condition.tokensEach] at h
    split at h
    next hv =>
      have ih := Condition.phrase_tokensEach hn.2 hf.2 h
      exact ⟨fun hall => ih.1 (by simpa [Condition.allVacuous, hv] using hall), ih.2⟩
    next hv =>
      obtain ⟨tokens, htokens, h⟩ := bind_eq_ok h
      obtain ⟨more, hmore, h⟩ := bind_eq_ok h
      cases h
      rw [Bool.not_eq_true] at hv
      have hfirst := Condition.phrase_tokens hn.1 hf.1 hv htokens
      have ih := Condition.phrase_tokensEach hn.2 hf.2 hmore
      exact ⟨fun _ => by simp, List.forall_mem_cons.2 ⟨hfirst, ih.2⟩⟩

end

theorem Condition.mem_nestedList {σ : Type} {list : List (Condition σ)} {q : σ} :
    q ∈ Condition.nestedList list ↔ ∃ c ∈ list, q ∈ c.nested := by
  induction list with
  | nil => simp [Condition.nestedList]
  | cons c rest ih => simp [Condition.nestedList, ih]

theorem Condition.mem_fragmentsList {σ : Type} {list : List (Condition σ)} {f : Fragment} :
    f ∈ Condition.fragmentsList list ↔ ∃ c ∈ list, f ∈ c.fragments := by
  induction list with
  | nil => simp [Condition.fragmentsList]
  | cons c rest ih => simp [Condition.fragmentsList, ih]

theorem Condition.tokensEach_of_allVacuous {list : List (Condition Nested)}
    (h : Condition.allVacuous list = true) : Condition.tokensEach p list = .ok [] := by
  induction list with
  | nil => rfl
  | cons condition rest ih =>
    rw [Condition.allVacuous, Bool.and_eq_true] at h
    rw [Condition.tokensEach, if_pos h.1]
    exact ih h.2

/-- A list is emitted as a phrase unless it has only empty groups. -/
theorem Condition.phrase_listTokens {list : List (Condition Nested)}
    (hn : ∀ n ∈ Condition.nestedList list, n.IsPhrase p F)
    (hf : ∀ f ∈ Condition.fragmentsList list, F f) (h : Condition.listTokens p list = .ok ts) :
    (Condition.allVacuous list = true ∧ ts = []) ∨
      (Condition.allVacuous list = false ∧ Phrase p F Keyword.isInner ts) := by
  obtain ⟨emitted, hemitted, rfl⟩ := map_eq_ok h
  cases hall : Condition.allVacuous list with
  | true =>
    rw [Condition.tokensEach_of_allVacuous hall] at hemitted
    cases hemitted
    exact .inl ⟨rfl, rfl⟩
  | false =>
    have hphrases := Condition.phrase_tokensEach hn hf hemitted
    exact .inr ⟨rfl, .connect (hphrases.1 hall) hphrases.2⟩

/-! ## Terms and the select list -/

theorem Term.phrase_tokens {place : NamePlace} {term : Term} (hf : ∀ f ∈ term.fragments, F f)
    (h : term.tokens p place = .ok ts) : Phrase p F K ts := by
  cases term with
  | column name => exact phrase_checkedReference h
  | raw fragment => exact .fragment (hf fragment (List.mem_singleton_self fragment)) h

theorem phrase_directedTokens {order : Term × Direction} (hf : ∀ f ∈ order.1.fragments, F f)
    (h : directedTokens p order = .ok ts) : Phrase p F Keyword.isInner ts := by
  obtain ⟨tokens, htokens, h⟩ := bind_eq_ok h
  cases h
  split
  · exact Term.phrase_tokens hf htokens
  · exact .spaced (Term.phrase_tokens hf htokens) (.keyword rfl)

/-- A list of parts with commas between them is a phrase unless it is empty. -/
private theorem phrase_list {α : Type} {emit : α → Emission} {list : List α}
    (hemit : ∀ x ∈ list, ∀ tokens, emit x = .ok tokens → Phrase p F K tokens)
    (h : (list.mapM emit).map Token.commaSeparated = .ok ts) :
    (list = [] ∧ ts = []) ∨ Phrase p F K ts := by
  obtain ⟨groups, hgroups, rfl⟩ := map_eq_ok h
  by_cases hne : groups = []
  · have hlength := (mapM_eq_ok hgroups).length_eq
    rw [hne, List.length_nil, List.length_eq_zero_iff] at hlength
    exact .inl ⟨hlength, by rw [hne]; rfl⟩
  · refine .inr (Phrase.commaSeparated hne fun group hgroup => ?_)
    obtain ⟨x, hx, hgroup⟩ := exists_of_mem_mapM hgroups hgroup
    exact hemit x hx group hgroup

theorem phrase_orderingTokens {orders : List (Term × Direction)}
    (hf : ∀ order ∈ orders, ∀ f ∈ order.1.fragments, F f) (h : orderingTokens p orders = .ok ts) :
    (orders = [] ∧ ts = []) ∨ Phrase p F Keyword.isInner ts :=
  phrase_list (fun order horder _ => phrase_directedTokens (hf order horder)) h

theorem phrase_groupingTokens {groups : List Term} (hf : ∀ term ∈ groups, ∀ f ∈ term.fragments, F f)
    (h : groupingTokens p groups = .ok ts) : ts = [] ∨ Phrase p F Keyword.isInner ts :=
  (phrase_list (fun term hterm _ => Term.phrase_tokens (hf term hterm)) h).imp_left And.right

theorem Selection.phrase_tokens {item : Selection Nested} (hn : ∀ n ∈ item.nested, n.IsPhrase p F)
    (hf : ∀ f ∈ item.fragments, F f) (h : item.tokens p = .ok ts) : Phrase p F Keyword.isInner ts := by
  cases item with
  | column c =>
    obtain ⟨-, -, h⟩ := bind_eq_ok h
    cases h
    exact (phrase_reference _).append (tail_aliasTokens rfl _)
  | raw fragment => exact .fragment (hf fragment (List.mem_singleton_self fragment)) h
  | aggregate function name aliasName =>
    obtain ⟨column, hcolumn, h⟩ := bind_eq_ok h
    cases h
    have hcolumn : Phrase p F Keyword.isInner column := phrase_checkedReference hcolumn
    exact (Phrase.applied (.aggregate function) hcolumn).append (tail_aliasTokens rfl aliasName)
  | subquery q aliasName =>
    obtain ⟨-, -, h⟩ := bind_eq_ok h
    obtain ⟨query, hquery, h⟩ := bind_eq_ok h
    cases h
    exact (Nested.phrase_tokens (hn q (List.mem_singleton_self q)) hquery).append
      (tail_aliasTokens rfl _)

theorem phrase_selectionTokens {items : List (Selection Nested)}
    (hitems : ∀ item ∈ items, (∀ n ∈ item.nested, n.IsPhrase p F) ∧ ∀ f ∈ item.fragments, F f)
    (h : selectionTokens p items = .ok ts) : Phrase p F Keyword.isInner ts := by
  unfold selectionTokens at h
  split at h
  · cases h
    exact .word .star
  next hne =>
    refine (phrase_list (fun item hitem _ => ?_) h).resolve_left fun hnil => hne (by simp [hnil.1])
    exact Selection.phrase_tokens (hitems item hitem).1 (hitems item hitem).2

/-! ## Sources and joins -/

theorem Source.phrase_tokens {place : NamePlace} {source : Source Nested}
    (hn : ∀ n ∈ source.nested, n.IsPhrase p F) (hf : ∀ f ∈ source.fragments, F f)
    (h : source.tokens p place = .ok ts) : Phrase p F Keyword.isInner ts := by
  cases source with
  | table name aliasName =>
    obtain ⟨-, -, h⟩ := bind_eq_ok h
    cases h
    exact phrase_table rfl name aliasName
  | subquery q aliasName =>
    obtain ⟨-, -, h⟩ := bind_eq_ok h
    obtain ⟨query, hquery, h⟩ := bind_eq_ok h
    cases h
    exact (Nested.phrase_tokens (hn q (List.mem_singleton_self q)) hquery).append
      (tail_tableAlias rfl aliasName)
  | raw fragment => exact .fragment (hf fragment (List.mem_singleton_self fragment)) h

/-- A join is emitted as its kind and its source, and its conditions behind them. -/
theorem Join.tokens_eq {j : Join Nested} (hn : ∀ n ∈ j.nested, n.IsPhrase p F)
    (hf : ∀ f ∈ j.fragments, F f) (h : j.tokens p = .ok ts) :
    ∃ head conditions, ts = .space :: head ++ conditions ∧ Phrase p F Keyword.ofJoin head ∧
      j.check p = .ok () ∧ j.conditionTokens p = .ok conditions := by
  rw [Join.nested, List.forall_mem_append] at hn
  rw [Join.fragments, List.forall_mem_append] at hf
  unfold Join.tokens at h
  obtain ⟨⟨⟩, hcheck, h⟩ := bind_eq_ok h
  obtain ⟨source, hsource, h⟩ := bind_eq_ok h
  obtain ⟨conditions, hconditions, h⟩ := bind_eq_ok h
  cases h
  have hkind : Phrase p F Keyword.ofJoin j.kind.tokens := by
    cases j.kind with
    | full => exact .spaced (.keyword rfl) (.keyword rfl)
    | inner | left | right | cross => exact .keyword rfl
  have hsource := (Source.phrase_tokens hn.1 hf.1 hsource).mono Keyword.ofJoin_of_isInner
  refine ⟨j.kind.tokens ++ (Token.spaced .join ++ source), conditions, by simp, ?_, hcheck, hconditions⟩
  exact hkind.append (.spaced rfl hsource)

theorem tail_conditionTokens {j : Join Nested} (hn : ∀ n ∈ j.nested, n.IsPhrase p F)
    (hf : ∀ f ∈ j.fragments, F f) (h : j.conditionTokens p = .ok ts) : Tail p F Keyword.ofHead ts := by
  rw [Join.nested, List.forall_mem_append] at hn
  rw [Join.fragments, List.forall_mem_append] at hf
  unfold Join.conditionTokens at h
  split at h
  · cases h
    exact .nil
  · obtain ⟨tokens, htokens, h⟩ := bind_eq_ok h
    split at h
    · cases h
    next hne =>
      cases h
      obtain ⟨-, rfl⟩ | ⟨-, hphrase⟩ := Condition.phrase_listTokens hn.2 hf.2 htokens
      · exact absurd rfl hne
      · exact .spaced rfl (hphrase.mono Keyword.ofHead_of_isInner)

theorem tail_joinTokens {j : Join Nested} (hn : ∀ n ∈ j.nested, n.IsPhrase p F)
    (hf : ∀ f ∈ j.fragments, F f) (h : j.tokens p = .ok ts) : Tail p F Keyword.ofHead ts := by
  obtain ⟨head, conditions, rfl, hhead, -, hconditions⟩ := Join.tokens_eq hn hf h
  exact .space ((hhead.mono Keyword.ofHead_of_ofJoin).append (tail_conditionTokens hn hf hconditions))

/-! ## The whole SELECT -/

theorem phrase_numberingTokens {t : Target} {orders : List (Term × Direction)}
    (hf : ∀ order ∈ orders, ∀ f ∈ order.1.fragments, F f) (h : numberingTokens t orders = .ok ts) :
    Phrase t.profile F Keyword.ofHead ts := by
  obtain ⟨order, horder, h⟩ := bind_eq_ok h
  cases h
  have hwindow : Phrase t.profile F Keyword.any ([.keyword .orderBy, .space] ++
      if orders.isEmpty then Token.parenthesized [.keyword .select, .space, .litInt 0] else order) := by
    refine Phrase.spaced (.keyword rfl) ?_
    obtain ⟨rfl, rfl⟩ | horder := phrase_orderingTokens hf horder
    · exact .enclosed (Phrase.spaced (.keyword (K := Keyword.any) rfl) (.word .zero))
    · split
      · exact .enclosed (Phrase.spaced (.keyword (K := Keyword.any) rfl) (.word .zero))
      · exact horder.any
  exact ((Phrase.call .rowNumber).append (.spaced rfl (.enclosed hwindow))).append
    (tail_aliasTokens rfl _)

theorem tail_fromTokens {source : Option (Source Nested)}
    (hsource : ∀ x ∈ source, (∀ n ∈ x.nested, n.IsPhrase p F) ∧ ∀ f ∈ x.fragments, F f)
    (h : fromTokens p source = .ok ts) : Tail p F Keyword.ofHead ts := by
  cases source with
  | none => cases h
  | some x =>
    obtain ⟨tokens, htokens, h⟩ := bind_eq_ok h
    cases h
    have hx := hsource x rfl
    exact .spaced rfl ((Source.phrase_tokens hx.1 hx.2 htokens).mono Keyword.ofHead_of_isInner)

/-- The select list with the column of row numbers, where there is one. -/
theorem phrase_numberedList {t : Target} {shape : Shape} {orders : List (Term × Direction)}
    {items number : List (Token Value)} (hf : ∀ order ∈ orders, ∀ f ∈ order.1.fragments, F f)
    (hitems : Phrase t.profile F Keyword.isInner items) (h : shape.numberTokens t orders = .ok number) :
    Phrase t.profile F Keyword.ofHead (items ++ number) := by
  have hitems : Phrase t.profile F Keyword.ofHead items := hitems.mono Keyword.ofHead_of_isInner
  cases shape with
  | numbered =>
    obtain ⟨column, hcolumn, h⟩ := bind_eq_ok h
    cases h
    exact .listed hitems (phrase_numberingTokens hf hcolumn)
  | plain | top rows | unordered =>
    cases h
    simpa using hitems

theorem tail_topTokens (shape : Shape) : Tail p F Keyword.ofHead shape.topTokens := by
  cases shape with
  | top rows => exact .space (.spaced (.keyword rfl) (.enclosed (J := Keyword.any) (.word (.param _))))
  | plain | numbered | unordered => exact .nil

theorem phrase_orderTokens {shape : Shape} {orders : List (Term × Direction)}
    (hf : ∀ order ∈ orders, ∀ f ∈ order.1.fragments, F f) (h : shape.orderTokens p orders = .ok ts) :
    ts = [] ∨ Phrase p F Keyword.isInner ts := by
  cases shape with
  | plain | top rows => exact (phrase_orderingTokens hf h).imp_left And.right
  | numbered | unordered =>
    cases h
    exact .inl rfl

theorem Sections.Holds.phrase_listTokens {list : List (Condition Nested)}
    (hlist : ∀ c ∈ list, (∀ n ∈ c.nested, n.IsPhrase p F) ∧ ∀ f ∈ c.fragments, F f)
    (h : Condition.listTokens p list = .ok ts) :
    (Condition.allVacuous list = true ∧ ts = []) ∨
      (Condition.allVacuous list = false ∧ Phrase p F Keyword.isInner ts) := by
  refine Condition.phrase_listTokens (fun n hn => ?_) (fun f hf => ?_) h
  · obtain ⟨c, hc, hn⟩ := Condition.mem_nestedList.1 hn
    exact (hlist c hc).1 n hn
  · obtain ⟨c, hc, hf⟩ := Condition.mem_fragmentsList.1 hf
    exact (hlist c hc).2 f hf

theorem Sections.Holds.nil_or_phrase {list : List (Condition Nested)}
    (hlist : ∀ c ∈ list, (∀ n ∈ c.nested, n.IsPhrase p F) ∧ ∀ f ∈ c.fragments, F f)
    (h : Condition.listTokens p list = .ok ts) : ts = [] ∨ Phrase p F Keyword.isInner ts :=
  (phrase_listTokens hlist h).imp And.right And.right

theorem Sections.Holds.tail_joins {s : Sections Nested} {joins : List (List (Token Value))}
    (hs : s.Holds (Nested.IsPhrase p F) F) (h : s.joins.mapM (Join.tokens p) = .ok joins) :
    Tail p F Keyword.ofHead joins.flatten := by
  apply Tail.flatten
  intro group hgroup
  obtain ⟨j, hj, hgroup⟩ := exists_of_mem_mapM h hgroup
  exact tail_joinTokens (hs.joins j hj).1 (hs.joins j hj).2 hgroup

/-- The sections behind the joins. -/
theorem Sections.Holds.tail_sections {s : Sections Nested} {shape : Shape}
    {filter groups having order : List (Token Value)} (hs : s.Holds (Nested.IsPhrase p F) F)
    (hfilter : Condition.listTokens p s.filters = .ok filter) (hgroups : groupingTokens p s.groups = .ok groups)
    (hhaving : Condition.listTokens p s.havings = .ok having)
    (horder : shape.orderTokens p s.orders = .ok order) :
    Tail p F Keyword.any (Token.sectionOf .where_ filter ++ Token.sectionOf .groupBy groups
      ++ Token.sectionOf .having having ++ Token.sectionOf .orderBy order) := by
  have hsection (k : Keyword) (tokens : List (Token Value)) (h : tokens = [] ∨ Phrase p F Keyword.isInner tokens) :
      Tail p F Keyword.any (Token.sectionOf k tokens) :=
    .sectionOf rfl (h.imp_right Phrase.any)
  exact (((hsection _ _ (nil_or_phrase hs.filters hfilter)).append
    (hsection _ _ (phrase_groupingTokens hs.groups hgroups))).append
    (hsection _ _ (nil_or_phrase hs.havings hhaving))).append (hsection _ _ (phrase_orderTokens hs.orders horder))

/-- A SELECT is emitted as a head up to its joins, and its other sections behind it, each if it has
one. -/
theorem selectTokens_eq {t : Target} {s : Sections Nested} {shape : Shape}
    (hs : s.Holds (Nested.IsPhrase t.profile F) F) (h : selectTokens t s shape = .ok ts) :
    ∃ head filter groups having order,
      ts = head ++ Token.sectionOf .where_ filter ++ Token.sectionOf .groupBy groups
        ++ Token.sectionOf .having having ++ Token.sectionOf .orderBy order ∧
      Phrase t.profile F Keyword.ofHead head ∧
      Condition.listTokens t.profile s.filters = .ok filter ∧
      groupingTokens t.profile s.groups = .ok groups ∧
      Condition.listTokens t.profile s.havings = .ok having ∧
      shape.orderTokens t.profile s.orders = .ok order := by
  unfold selectTokens at h
  obtain ⟨items, hitems, h⟩ := bind_eq_ok h
  obtain ⟨number, hnumber, h⟩ := bind_eq_ok h
  obtain ⟨source, hsource, h⟩ := bind_eq_ok h
  obtain ⟨joins, hjoins, h⟩ := bind_eq_ok h
  obtain ⟨filter, hfilter, h⟩ := bind_eq_ok h
  obtain ⟨groups, hgroups, h⟩ := bind_eq_ok h
  obtain ⟨having, hhaving, h⟩ := bind_eq_ok h
  obtain ⟨order, horder, h⟩ := bind_eq_ok h
  cases h
  have hitems := phrase_numberedList hs.orders (phrase_selectionTokens hs.items hitems) hnumber
  have hdistinct : Tail t.profile F Keyword.ofHead
      (if s.distinct then [.space, .keyword .distinct] else []) := by
    split
    · exact .space (.keyword rfl)
    · exact .nil
  have htail := (((hdistinct.append (tail_topTokens shape)).append (.space hitems)).append
    (tail_fromTokens hs.source hsource)).append (hs.tail_joins hjoins)
  refine ⟨_, filter, groups, having, order, ?_, (Phrase.keyword (k := .select) rfl).append htail,
    hfilter, hgroups, hhaving, horder⟩
  simp

theorem selectTokens_eq_cons {t : Target} {s : Sections Nested} {shape : Shape}
    (h : selectTokens t s shape = .ok ts) : ∃ rest, ts = .keyword .select :: rest := by
  obtain ⟨items, -, h⟩ := bind_eq_ok h
  obtain ⟨number, -, h⟩ := bind_eq_ok h
  obtain ⟨source, -, h⟩ := bind_eq_ok h
  obtain ⟨joins, -, h⟩ := bind_eq_ok h
  obtain ⟨filter, -, h⟩ := bind_eq_ok h
  obtain ⟨groups, -, h⟩ := bind_eq_ok h
  obtain ⟨having, -, h⟩ := bind_eq_ok h
  obtain ⟨order, -, h⟩ := bind_eq_ok h
  cases h
  exact ⟨_, rfl⟩

theorem phrase_selectTokens {t : Target} {s : Sections Nested} {shape : Shape}
    (hs : s.Holds (Nested.IsPhrase t.profile F) F) (h : selectTokens t s shape = .ok ts) :
    Phrase t.profile F Keyword.any ts := by
  obtain ⟨head, filter, groups, having, order, rfl, hhead, hfilter, hgroups, hhaving, horder⟩ :=
    selectTokens_eq hs h
  simpa using hhead.any.append (hs.tail_sections hfilter hgroups hhaving horder)

/-! ## Pages -/

theorem Term.fragments_output {σ : Type} (p : Profile) (items : List (Selection σ)) (term : Term) :
    (term.output p items).fragments = term.fragments := by
  cases term <;> rfl

theorem phrase_selectAllFrom (h : Phrase p F Keyword.any ts) :
    Phrase p F Keyword.any (selectAllFrom ts) :=
  (Phrase.spaced (.keyword (k := .select) rfl) (.word .star)).append (.spaced rfl (.enclosed h))

theorem phrase_numberedDistinct {t : Target} {s : Sections Nested}
    (hs : s.Holds (Nested.IsPhrase t.profile F) F) (h : numberedDistinct t s = .ok ts) :
    Phrase t.profile F Keyword.any ts := by
  obtain ⟨number, hnumber, h⟩ := bind_eq_ok h
  obtain ⟨inner, hinner, h⟩ := bind_eq_ok h
  cases h
  have hnumber : Phrase t.profile F Keyword.any number := by
    refine (phrase_numberingTokens (fun order horder => ?_) hnumber).any
    obtain ⟨⟨term, direction⟩, hterm, rfl⟩ := List.mem_map.1 horder
    simpa [Term.fragments_output] using hs.orders (term, direction) hterm
  have hlist := (Phrase.word (K := Keyword.any) (Profile.IsWord.star (p := t.profile))).listed hnumber
  have hsource := Tail.append (.spaced (k := .from) rfl (.enclosed (phrase_selectTokens hs hinner)))
    (tail_tableAlias (K := Keyword.any) rfl distinctTable)
  simpa using ((Phrase.keyword (k := .select) rfl).spaced hlist).append hsource

theorem phrase_numberedRows {t : Target} {s : Sections Nested}
    (hs : s.Holds (Nested.IsPhrase t.profile F) F) (h : numberedRows t s = .ok ts) :
    Phrase t.profile F Keyword.any ts := by
  unfold numberedRows at h
  split at h
  · exact phrase_numberedDistinct hs h
  · exact phrase_selectTokens hs h

theorem phrase_pageTest {ordinal : Token Value} {page : Page} (hordinal : p.IsWord ordinal)
    (hpage : page.isPartial = true) : Phrase p F Keyword.any (pageTest ordinal page) := by
  have htest : ∀ (op : Comparison) (bound : Int64),
      Phrase p F Keyword.any (ordinalTest ordinal op.symbol bound) := fun op bound =>
    .spaced (.word hordinal) (.spaced (.word (.comparison op)) (.word (.param _)))
  obtain ⟨limit, offset⟩ := page
  cases offset with
  | none =>
    cases limit with
    | none => contradiction
    | some limit => exact htest .le _
  | some offset =>
    cases limit with
    | none => exact htest .ge _
    | some limit => exact (htest .ge _).append (.spaced rfl (htest .lt _))

theorem tail_limitTokens (page : Page) : Tail p F Keyword.any (limitTokens p page) := by
  refine Tail.append ?_ ?_
  · split
    · exact .spaced rfl (.word (.param _))
    next hrows => exact .spaced rfl (.word (.allRows hrows))
    · exact .nil
  · split
    · exact .spaced rfl (.word (.param _))
    · exact .nil

theorem phrase_rowNumberPage {t : Target} {s : Sections Nested} {page : Page} {outermost : Bool}
    (hs : s.Holds (Nested.IsPhrase t.profile F) F) (hpage : page.isPartial = true)
    (h : rowNumberPage t s page outermost = .ok ts) : Phrase t.profile F Keyword.any ts := by
  obtain ⟨inner, hinner, h⟩ := bind_eq_ok h
  cases h
  have hordinal : t.profile.IsWord (t.profile.aliasToken t.options.rowNumberAlias) :=
    isWord_segmentToken _ _
  have hrows := phrase_selectAllFrom (phrase_numberedRows hs hinner)
  refine Phrase.append ?_ ?_
  · simpa using (hrows.append (tail_tableAlias rfl _)).append
      (.spaced (k := .where_) rfl (phrase_pageTest hordinal hpage))
  · split
    · exact .spaced rfl (.word hordinal)
    · exact .nil

theorem phrase_rowNumPage {t : Target} {s : Sections Nested} {page : Page}
    (hs : s.Holds (Nested.IsPhrase t.profile F) F) (hpage : page.isPartial = true)
    (h : rowNumPage t s page = .ok ts) : Phrase t.profile F Keyword.any ts := by
  obtain ⟨inner, hinner, h⟩ := bind_eq_ok h
  have hinner := phrase_selectTokens hs hinner
  split at h
  · cases h
    have htest : Phrase t.profile F Keyword.any (pageTest rowNumToken page) :=
      phrase_pageTest .rowNum hpage
    simpa using (phrase_selectAllFrom hinner).append (.spaced (k := .where_) rfl htest)
  · cases h
    have hordinal : t.profile.IsWord (t.profile.aliasToken t.options.rowNumberAlias) :=
      isWord_segmentToken _ _
    have hlist : Phrase t.profile F Keyword.any
        ([t.profile.aliasToken t.options.wrapperAlias, .symbol .dot, .symbol .star, .symbol .comma,
          .space, rowNumToken] ++ aliasTokens t.profile (some t.options.rowNumberAlias)) :=
      ((Phrase.word (isWord_segmentToken _ _)).dotted (.word .star)).listed
        ((Phrase.word .rowNum).append (tail_aliasTokens rfl _))
    have hsource := Tail.append (.spaced (k := .from) rfl (.enclosed hinner))
      (tail_tableAlias (K := Keyword.any) rfl t.options.wrapperAlias)
    have hnumbered := ((Phrase.keyword (k := .select) rfl).spaced hlist).append hsource
    have hpaged := (phrase_selectAllFrom hnumbered).append
      (.spaced (k := .where_) rfl (phrase_pageTest hordinal hpage))
    simpa [rowNumRows, aliasTokens] using hpaged

theorem Plan.isPartial_of_ofPage_ne {paging : Paging} {page : Page}
    (h : Plan.ofPage paging page ≠ .whole) : page.isPartial = true := by
  unfold Plan.ofPage at h
  split at h
  · contradiction
  next hpage => simpa using hpage

theorem Plan.page_of_ofPage {paging : Paging} {page inner : Page}
    (h : Plan.ofPage paging page = .rowNumber inner ∨ Plan.ofPage paging page = .rowNum inner) :
    inner = page := by
  unfold Plan.ofPage at h
  grind

/-- What a plan says of the page and of the construct. -/
theorem Plan.ofPage_cases (paging : Paging) (page : Page) :
    (page.isPartial = false ∧ ofPage paging page = .whole) ∨ (page.isPartial = true ∧
      ((paging = .limitOffset ∧ ofPage paging page = .limitOffset page) ∨
        (paging = .topCount ∧ ∃ limit, page = ⟨some limit, none⟩ ∧ ofPage paging page = .top limit) ∨
        ((paging = .topCount ∨ paging = .rowNumber) ∧ ofPage paging page = .rowNumber page) ∨
        (paging = .rowNum ∧ ofPage paging page = .rowNum page))) := by
  obtain ⟨limit, offset⟩ := page
  cases paging <;> cases limit <;> cases offset <;> simp [ofPage, Page.isPartial]

theorem phrase_pagedTokens {t : Target} {s : Sections Nested} {outermost : Bool}
    (hs : s.Holds (Nested.IsPhrase t.profile F) F) (h : pagedTokens t s outermost = .ok ts) :
    Phrase t.profile F Keyword.any ts := by
  unfold pagedTokens at h
  split at h
  · exact phrase_selectTokens hs h
  · obtain ⟨tokens, htokens, rfl⟩ := map_eq_ok h
    exact (phrase_selectTokens hs htokens).append (tail_limitTokens _)
  · exact phrase_selectTokens hs h
  next hplan =>
    obtain rfl := Plan.page_of_ofPage (.inl hplan)
    exact phrase_rowNumberPage hs (Plan.isPartial_of_ofPage_ne (by rw [hplan]; simp)) h
  next hplan =>
    obtain rfl := Plan.page_of_ofPage (.inr hplan)
    exact phrase_rowNumPage hs (Plan.isPartial_of_ofPage_ne (by rw [hplan]; simp)) h

/-- Every paged SELECT begins with the keyword. -/
theorem pagedTokens_eq_cons {t : Target} {s : Sections Nested} {outermost : Bool}
    (h : pagedTokens t s outermost = .ok ts) : ∃ rest, ts = .keyword .select :: rest := by
  unfold pagedTokens at h
  split at h
  · exact selectTokens_eq_cons h
  · obtain ⟨tokens, htokens, rfl⟩ := map_eq_ok h
    obtain ⟨rest, rfl⟩ := selectTokens_eq_cons htokens
    exact ⟨_, rfl⟩
  · exact selectTokens_eq_cons h
  · obtain ⟨inner, -, h⟩ := bind_eq_ok h
    cases h
    exact ⟨_, rfl⟩
  · obtain ⟨inner, -, h⟩ := bind_eq_ok h
    split at h
    · cases h
      exact ⟨_, rfl⟩
    · cases h
      exact ⟨_, rfl⟩

/-! ## Statements -/

theorem phrase_cteTokens {cte : String × Nested} (hn : cte.2.IsPhrase p F)
    (h : cteTokens p cte = .ok ts) : Phrase p F Keyword.any ts := by
  obtain ⟨-, -, h⟩ := bind_eq_ok h
  obtain ⟨query, hquery, h⟩ := bind_eq_ok h
  cases h
  exact (phrase_aliasToken _).append (.spaced rfl (Nested.phrase_tokens hn hquery))

/-- A statement after its common table expressions. -/
theorem phrase_withTokens {ctes : List (String × Nested)} {a : List (Token Value)}
    (hctes : ∀ cte ∈ ctes, cte.2.IsPhrase p F) (h : withTokens p ctes = .ok ts)
    (ha : Phrase p F Keyword.any a) : Phrase p F Keyword.any (ts ++ a) := by
  unfold withTokens at h
  split at h
  · cases h
    exact ha
  next hne =>
    obtain ⟨list, hlist, h⟩ := bind_eq_ok h
    cases h
    have hcte : ∀ cte ∈ ctes, ∀ tokens, cteTokens p cte = .ok tokens → Phrase p F Keyword.any tokens :=
      fun cte hcte tokens => phrase_cteTokens (hctes cte hcte)
    have hlist : Phrase p F Keyword.any (Token.commaSeparated list) :=
      (phrase_list hcte (by rw [hlist]; rfl)).resolve_left fun hnil => hne (by simp [hnil.1])
    simpa using (Phrase.keyword (k := .with_) rfl).spaced (hlist.spaced ha)

/-- An operand stands as it is, or in parentheses where the dialect has them. -/
theorem operandTokens_cases {isDelimited : Bool} {tokens : List (Token Value)}
    (h : operandTokens p isDelimited tokens = .ok ts) :
    (isDelimited = false ∧ ts = tokens) ∨
      (isDelimited = true ∧ p.hasOperandParens = true ∧ ts = Token.parenthesized tokens) := by
  unfold operandTokens at h
  cases isDelimited with
  | false =>
    cases h
    exact .inl ⟨rfl, rfl⟩
  | true =>
    rw [Bool.not_true, if_neg Bool.false_ne_true] at h
    split at h
    next hparens =>
      cases h
      exact .inr ⟨rfl, hparens, rfl⟩
    next => cases h

theorem phrase_operandTokens {isDelimited : Bool} {tokens : List (Token Value)}
    (htokens : Phrase p F Keyword.any tokens) (h : operandTokens p isDelimited tokens = .ok ts) :
    Phrase p F Keyword.any ts := by
  obtain ⟨-, rfl⟩ | ⟨-, -, rfl⟩ := operandTokens_cases h
  · exact htokens
  · exact .enclosed htokens

theorem tail_armTokens {arm : Arm Nested} (hn : arm.operand.IsPhrase p F)
    (h : arm.tokens p = .ok ts) : Tail p F Keyword.any ts := by
  obtain ⟨keyword, -, h⟩ := bind_eq_ok h
  obtain ⟨statement, hstatement, h⟩ := bind_eq_ok h
  obtain ⟨operand, hoperand, h⟩ := bind_eq_ok h
  cases h
  have hall : Tail p F Keyword.any (if arm.all then [.space, .keyword .all] else []) := by
    split
    · exact .space (.keyword rfl)
    · exact .nil
  have hoperator := (Phrase.keyword (p := p) (F := F) (K := Keyword.any) (k := keyword) rfl).append hall
  simpa using Tail.space (hoperator.spaced (phrase_operandTokens (hn _ hstatement) hoperand))

theorem Sections.Holds.tail_arms {s : Sections Nested} {arms : List (List (Token Value))}
    (hs : s.Holds (Nested.IsPhrase p F) F) (h : s.arms.mapM (Arm.tokens p) = .ok arms) :
    Tail p F Keyword.any arms.flatten := by
  apply Tail.flatten
  intro group hgroup
  obtain ⟨arm, harm, hgroup⟩ := exists_of_mem_mapM h hgroup
  exact tail_armTokens (hs.arms arm harm) hgroup

theorem phrase_sectionTokens {t : Target} {s : Sections Nested} {outermost : Bool}
    (hs : s.Holds (Nested.IsPhrase t.profile F) F) (h : sectionTokens t s outermost = .ok ts) :
    Phrase t.profile F Keyword.any ts := by
  obtain ⟨ctes, hctes, h⟩ := bind_eq_ok h
  split at h
  · obtain ⟨head, hhead, h⟩ := bind_eq_ok h
    cases h
    exact phrase_withTokens hs.ctes hctes (phrase_pagedTokens hs hhead)
  · obtain ⟨paged, hpaged, h⟩ := bind_eq_ok h
    obtain ⟨head, hhead, h⟩ := bind_eq_ok h
    obtain ⟨arms, harms, h⟩ := bind_eq_ok h
    cases h
    have hhead := phrase_operandTokens (phrase_pagedTokens hs hpaged) hhead
    simpa using phrase_withTokens hs.ctes hctes (hhead.append (hs.tail_arms harms))

theorem phrase_statementTokens {t : Target} {outermost : Bool} {clauses : Clauses Nested}
    (hclauses : ∀ clause ∈ clauses, clause.Holds (Nested.IsPhrase t.profile F) F)
    (h : statementTokens t outermost clauses = .ok ts) : Phrase t.profile F Keyword.any ts := by
  obtain ⟨sections, hsections, h⟩ := bind_eq_ok h
  exact phrase_sectionTokens (Sections.holds_ofClauses hclauses hsections) h

/-! ## Queries -/

theorem Clause.holds_map {σ τ : Type} {f : σ → τ} {G : τ → Prop} {clause : Clause σ}
    (hf : ∀ fragment ∈ clause.fragments, F fragment) (hn : ∀ q ∈ clause.nested, G (f q)) :
    (clause.map f).Holds G F := by
  constructor
  · rw [Clause.nested_map]
    exact List.forall_mem_map.2 hn
  · rwa [Clause.fragments_map]

theorem Query.isPhrase_nested {t : Target} {q : Query}
    (h : q.Everywhere fun clause => ∀ fragment ∈ clause.fragments, F fragment) :
    (q.nested t).IsPhrase t.profile F := by
  induction h with
  | mk here _ ih =>
    intro ts hts
    rw [Query.nested, Query.fold_mk] at hts
    refine phrase_statementTokens (fun clause hclause => ?_) hts
    obtain ⟨inner, hinner, rfl⟩ := List.mem_map.1 hclause
    exact Clause.holds_map (here inner hinner) (ih inner hinner)

theorem Query.phrase_tokens {t : Target} {q : Query}
    (h : q.Everywhere fun clause => ∀ fragment ∈ clause.fragments, F fragment)
    (hts : q.tokens t = .ok ts) : Phrase t.profile F Keyword.any ts := by
  obtain @⟨clauses, here, below⟩ := h
  refine phrase_statementTokens (fun clause hclause => ?_) hts
  obtain ⟨inner, hinner, rfl⟩ := List.mem_map.1 hclause
  exact Clause.holds_map (here inner hinner) fun q hq => isPhrase_nested (below inner hinner q hq)

end QueryCompiler
