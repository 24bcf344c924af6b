-- SUMMARY: Conditions are emitted with their meaning: what is read off the tokens is what the conditions say.
import QueryCompiler.Proofs.Atoms
import QueryCompiler.Proofs.Placement

/-!
# Emitted conditions keep their meaning

An atomic predicate is emitted as the words of its atom. Negation is written in
several ways: in front of a text in parentheses, inside an atom, as the other test
for null or as the other comparison of constants. By induction on conditions, each
of them is read as the negation that it stands for, and each list as its runs,
however deeply groups are nested.
-/

namespace QueryCompiler

variable {p : Profile} {F : Fragment → Prop} {w : Atom → Truth} {ts : List (Token Value)}

/-- The words of a nested query. -/
def Nested.words? (n : Nested) : Option (List (Token Value)) :=
  n.statement.toOption.map Token.words

/-! ## Subjects -/

theorem leads_segmentToken (p : Profile) (cs : List Char) :
    (p.segmentToken cs : Token Value).leads = true ∧ (p.segmentToken cs : Token Value).isSpace = false := by
  unfold Profile.segmentToken
  split
  · exact ⟨rfl, rfl⟩
  · split <;> exact ⟨rfl, rfl⟩

theorem isSubject_checkedReference {place : NamePlace} {name : String}
    (h : p.checkedReference place name = .ok ts) : IsSubject (Token.words ts) := by
  have hphrase : Phrase p (fun _ => False) (fun _ => false) ts := phrase_checkedReference h
  refine ⟨?_, hphrase.uncut⟩
  unfold Profile.checkedReference at h
  obtain ⟨-, -, h⟩ := bind_eq_ok h
  cases h
  unfold Profile.reference
  obtain ⟨cs, rest, hsplit⟩ := List.exists_cons_of_ne_nil
    (p.quotes.splitFrom_ne_nil .outside (Text.trim name.toList))
  have hfirst := leads_segmentToken p (Text.trim cs)
  rw [QuotePair.split, hsplit, List.map_cons]
  cases rest with
  | nil => exact ⟨_, [], Token.words_cons hfirst.2 [], hfirst.1⟩
  | cons next rest => exact ⟨_, _, Token.words_cons hfirst.2 _, hfirst.1⟩

theorem passes_relates_referenceWords (name : String) : Passes Level.relates {} {} (p.referenceWords name) :=
  passes_relates (unrelated_referenceWords name)

/-! ## Kinds of predicates -/

theorem readsAs_nullTest {column : String} {subject : List (Token Value)}
    (hsubject : p.checkedReference .condition column = .ok subject) (isNull : Bool) :
    ReadsAs (Atom.value? w) (Token.words (nullTest subject isNull))
      ((Predicate.value p Nested.words? w (.isNull column)).negate !isNull) := by
  have hcolumn := isSubject_checkedReference hsubject
  have hatom : Atom.value? w (Token.words subject ++ [.keyword .isNull])
      = some (Predicate.value p Nested.words? w (.isNull column)) := by
    rw [Atom.value?, words_checkedReference hsubject,
      Atom.read_append (passes_relates_referenceWords column) rfl .nil]
    rfl
  have hwords : Token.words (nullTest subject isNull)
      = Token.words subject ++ [.keyword (if isNull then .isNull else .isNotNull)] := by
    simp [nullTest]
  rw [hwords]
  cases isNull with
  | false => exact .isNotNull hcolumn hatom
  | true => exact .atom (hcolumn.append (.keyword (by simp))) hatom

/-- An atom with its negation, if any, behind its subject. -/
theorem readsAs_relation {predicate : Predicate Nested (Condition Nested)} {atom : Atom}
    {subject rest : List (Token Value)} (hsubject : IsSubject (Token.words subject))
    (hrest : Uncut (Token.words rest)) (hread : Atom.read (Token.words subject ++ Token.words rest) = some atom)
    (hatom : Predicate.atom? p Nested.words? predicate = some atom) (negated : Bool) :
    ReadsAs (Atom.value? w) (Token.words (subject ++ Token.notAfter negated ++ rest))
      ((Predicate.value p Nested.words? w predicate).negate negated) := by
  have hvalue : Atom.value? w (Token.words subject ++ Token.words rest) = some (w atom) := by
    rw [Atom.value?, hread]
    rfl
  rw [Token.words_append, Token.words_append, Predicate.value_eq hatom]
  cases negated with
  | true =>
    have hnot := ReadsAs.negatedAtom hsubject hrest hvalue
    simpa [Token.notAfter] using hnot
  | false =>
    have hatom := ReadsAs.atom (hsubject.append hrest) hvalue
    simpa [Token.notAfter] using hatom

theorem Comparison.nullTest?_eq_some {op : Comparison} {operand : Operand Nested} {isNull : Bool}
    (h : op.nullTest? operand = some isNull) :
    operand = .value .null ∧ (op = .eq ∧ isNull = true ∨ op = .ne ∧ isNull = false) := by
  unfold Comparison.nullTest? at h
  split at h
  · exact ⟨rfl, .inl ⟨rfl, (Option.some.inj h).symm⟩⟩
  · exact ⟨rfl, .inr ⟨rfl, (Option.some.inj h).symm⟩⟩
  · cases h

theorem Predicate.truth_compare {value : Predicate Nested (Condition Nested) → Truth} {column : String}
    {op : Comparison} {operand : Operand Nested} (h : op.nullTest? operand = none) :
    Predicate.truth value (.compare column op operand) = value (.compare column op operand) := by
  cases operand with
  | value u => cases u <;> cases op <;> first | rfl | cases h
  | column | query | raw => cases op <;> rfl

theorem Comparison.relation?_symbol (op : Comparison) :
    (.symbol op.symbol : Token Value).relation? = some (.compare op) := by
  cases op <;> rfl

theorem Nested.words?_eq {n : Nested} {tokens : List (Token Value)} (h : n.tokens = .ok tokens) :
    ∃ words, n.words? = some words ∧ Token.words tokens = Token.parenthesized words := by
  obtain ⟨statement, hstatement, rfl⟩ := map_eq_ok h
  refine ⟨Token.words statement, ?_, Token.words_parenthesized statement⟩
  rw [Nested.words?, hstatement]
  rfl

/-- The words of a nested query in parentheses hold no relation of the text around. -/
theorem Nested.passes_relates {n : Nested} (hn : n.IsPhrase p F) {tokens : List (Token Value)}
    (h : n.tokens = .ok tokens) : Passes Level.relates {} {} (Token.words tokens) := by
  obtain ⟨statement, hstatement, rfl⟩ := map_eq_ok h
  rw [Token.words_parenthesized]
  exact (hn statement hstatement).passes_relates

/-- The right-hand side of a comparison is emitted as its words, and they hold no other relation. -/
theorem Operand.words?_eq {operand : Operand Nested} (hn : ∀ n ∈ operand.nested, n.IsPhrase p F)
    (hf : operand.fragments = []) {object : List (Token Value)} (h : operand.tokens p = .ok object) :
    operand.words? p Nested.words? = some (Token.words object) ∧
      Passes Level.relates {} {} (Token.words object) := by
  cases operand with
  | value v =>
    cases h
    exact ⟨rfl, .token rfl rfl⟩
  | column name =>
    rw [words_checkedReference h]
    exact ⟨rfl, passes_relates_referenceWords name⟩
  | query q =>
    obtain ⟨words, hwords, hobject⟩ := Nested.words?_eq h
    refine ⟨?_, Nested.passes_relates (hn q (List.mem_singleton_self q)) h⟩
    rw [Operand.words?, hwords, hobject]
    rfl
  | raw fragment => cases hf

theorem readsAs_comparison {negated : Bool} {column : String} {op : Comparison} {operand : Operand Nested}
    (hn : ∀ n ∈ operand.nested, n.IsPhrase p F) (hf : operand.fragments = [])
    (h : comparison p negated column op operand = .ok ts) :
    ReadsAs (Atom.value? w) (Token.words ts)
      ((Predicate.truth (Predicate.value p Nested.words? w) (.compare column op operand)).negate negated) := by
  unfold comparison at h
  obtain ⟨subject, hsubject, h⟩ := bind_eq_ok h
  split at h
  next isNull hnull =>
    cases h
    have hread := readsAs_nullTest (w := w) hsubject (isNull != negated)
    obtain ⟨rfl, ⟨rfl, rfl⟩ | ⟨rfl, rfl⟩⟩ := Comparison.nullTest?_eq_some hnull
    · cases negated <;> exact hread
    · cases negated with
      | false => exact hread
      | true =>
        rw [Predicate.truth, Truth.negate_true, Truth.not_not]
        exact hread
  next hnull =>
    obtain ⟨object, hobject', h⟩ := bind_eq_ok h
    have hobject : Phrase p F (fun _ => false) object := operand.phrase_tokens hn (by simp [hf]) hobject'
    have hsign : Phrase p F (fun _ => false) ([.symbol op.symbol] ++ .space :: object) :=
      (Phrase.word (.comparison op)).spaced hobject
    have hphrase : Phrase p F (fun _ => false) (subject ++ [.space, .symbol op.symbol, .space] ++ object) := by
      simpa using (phrase_checkedReference hsubject).spaced hsign
    obtain ⟨hwords, hpasses⟩ := Operand.words?_eq hn hf hobject'
    have hvalue : Predicate.value p Nested.words? w (.compare column op operand)
        = w ⟨p.referenceWords column, .compare op, Token.words object⟩ := by
      refine Predicate.value_eq ?_
      rw [Predicate.atom?, hwords]
      rfl
    have hatom : ReadsAs (Atom.value? w) (Token.words (subject ++ [.space, .symbol op.symbol, .space] ++ object))
        (Predicate.value p Nested.words? w (.compare column op operand)) := by
      have hsteps : Level.step {} (.symbol op.symbol) = {} := by
        cases op <;> rfl
      have hread := Atom.read_append (passes_relates_referenceWords (p := p) column) op.relation?_symbol
        (hsteps ▸ hpasses)
      rw [List.append_assoc, Token.words_append, words_checkedReference hsubject, hvalue]
      refine .atom ((words_checkedReference hsubject ▸ isSubject_checkedReference hsubject).append hsign.uncut) ?_
      exact congrArg (Option.map w) hread
    cases h
    rw [Predicate.truth_compare hnull]
    cases negated with
    | false => exact hatom
    | true =>
      have hgroup := ReadsAs.parenthesized hphrase fun n hn => hatom.readWords hn
      have hnot := hgroup.notBefore true
      simpa using hnot

theorem words_commaSeparated_values (values : List Value) :
    Token.words (Token.commaSeparated (values.map fun v => [Token.value v]))
      = (values.map Token.param).intersperse (.symbol .comma) := by
  induction values with
  | nil => rfl
  | cons v rest ih =>
    cases rest with
    | nil => rfl
    | cons next rest =>
      have hfirst : Token.words (Token.commaSeparated ((v :: next :: rest).map fun v => [Token.value v]))
          = .param v :: .symbol .comma ::
            Token.words (Token.commaSeparated ((next :: rest).map fun v => [Token.value v])) := by
        simp [Token.commaSeparated, List.intercalate]
        rfl
      rw [hfirst, ih]
      rfl

theorem readsAs_membership {negated : Bool} {column : String} {values : List Value}
    (h : membership p negated column values = .ok ts) :
    ReadsAs (Atom.value? w) (Token.words ts)
      ((Predicate.truth (Predicate.value p Nested.words? w) (.inValues column values)).negate negated) := by
  unfold membership at h
  obtain ⟨subject, hsubject, h⟩ := bind_eq_ok h
  cases values with
  | nil =>
    cases h
    have hread := ReadsAs.constantTest (v := Atom.value? w) negated
    cases negated <;> exact hread
  | cons u rest =>
    cases h
    have hlist : Phrase p (fun _ => False) Keyword.any
        (Token.commaSeparated ((u :: rest).map fun v => [Token.value v])) := by
      refine .commaSeparated (by simp) fun group hgroup => ?_
      obtain ⟨u, -, rfl⟩ := List.mem_map.1 hgroup
      exact .word (.param u)
    rw [List.append_assoc]
    refine readsAs_relation (isSubject_checkedReference hsubject)
      (Phrase.uncut_spaced (.enclosed hlist) (by simp)) ?_ rfl negated
    rw [words_checkedReference hsubject, Token.words_append, Token.words_parenthesized,
      ← words_commaSeparated_values]
    exact Atom.read_append (t := .keyword .in_) (passes_relates_referenceWords column) rfl hlist.passes_relates

/-- The subject and the keyword of a pattern match, and the word that the pattern is matched as. -/
theorem patternMatch_eq {column pattern : String} {caseSensitive : Bool} {column' : List (Token Value)}
    (hcolumn : p.checkedReference .condition column = .ok column') :
    ∃ subject keyword word relation, IsSubject (Token.words subject) ∧ (keyword = .like ∨ keyword = .ilike) ∧
      Passes Level.relates {} {} (Token.words subject) ∧
      (.keyword keyword : Token Value).relation? = some relation ∧
      Predicate.atom? p Nested.words? (.like column pattern caseSensitive)
        = some ⟨Token.words subject, relation, [.param (.string word)]⟩ ∧
      ∀ negated, patternMatch p negated column pattern caseSensitive
        = .ok (subject ++ Token.notAfter negated ++ (Token.spaced keyword ++ [.param (.string word)])) := by
  have hsubject := isSubject_checkedReference hcolumn
  have hwords := words_checkedReference hcolumn
  have hpasses : Passes Level.relates {} {} (Token.words column') :=
    hwords ▸ passes_relates_referenceWords column
  have hphrase : Phrase p (fun _ => False) (fun _ => false) column' := phrase_checkedReference hcolumn
  have hlower : IsSubject (Token.words (.function "LOWER" :: Token.parenthesized column')) :=
    ⟨⟨_, _, rfl, rfl⟩, (Phrase.applied .lower hphrase).uncut⟩
  have hlowerPasses : Passes Level.relates {} {}
      (Token.words (.function "LOWER" :: Token.parenthesized column')) := by
    rw [Token.words_function, Token.words_parenthesized]
    exact .cons rfl hphrase.passes_relates
  simp only [patternMatch, hcolumn, bind, Except.bind, ← List.append_assoc]
  cases caseSensitive with
  | true =>
    exact ⟨column', .like, pattern, .like, hsubject, .inl rfl, hpasses, rfl, by rw [hwords]; rfl, fun _ => rfl⟩
  | false =>
    cases hmatch : p.caselessMatch with
    | ilike =>
      refine ⟨column', .ilike, pattern, .ilike, hsubject, .inr rfl, hpasses, rfl, ?_, fun _ => rfl⟩
      rw [Predicate.atom?, hmatch, hwords]
    | lowerCase =>
      refine ⟨_, .like, Text.lower pattern, .like, hlower, .inl rfl, hlowerPasses, rfl, ?_, fun _ => rfl⟩
      rw [Predicate.atom?, hmatch, Token.words_function, Token.words_parenthesized, hwords]

theorem readsAs_patternMatch {negated : Bool} {column pattern : String} {caseSensitive : Bool}
    (h : patternMatch p negated column pattern caseSensitive = .ok ts) :
    ReadsAs (Atom.value? w) (Token.words ts)
      ((Predicate.value p Nested.words? w (.like column pattern caseSensitive)).negate negated) := by
  obtain ⟨column', hcolumn, -⟩ := bind_eq_ok h
  obtain ⟨subject, keyword, word, relation, hsubject, hkeyword, hpasses, hrelation, hatom, heq⟩ :=
    patternMatch_eq hcolumn
  rw [heq] at h
  cases h
  have hword : Phrase p (fun _ => False) (fun _ => false) [.param (.string word)] := .word (.param _)
  have huncut : Uncut (Token.words (Token.spaced keyword ++ [.param (.string word)])) := by
    refine hword.uncut_spaced ?_
    rcases hkeyword with rfl | rfl <;> simp
  have hstep : Passes Level.relates (Level.step {} (.keyword keyword)) {} [.param (.string word)] := by
    rcases hkeyword with rfl | rfl <;> exact .token rfl rfl
  exact readsAs_relation hsubject huncut (Atom.read_append hpasses hrelation hstep) hatom negated

theorem readsAs_inQuery {negated : Bool} {column : String} {q : Nested} (hn : q.IsPhrase p F)
    (h : Predicate.tokens p negated (.inQuery column q) = .ok ts) :
    ReadsAs (Atom.value? w) (Token.words ts)
      ((Predicate.value p Nested.words? w (.inQuery column q)).negate negated) := by
  obtain ⟨subject, hsubject, h⟩ := bind_eq_ok h
  obtain ⟨query, hquery, h⟩ := bind_eq_ok h
  cases h
  have hphrase : Phrase p F (fun _ => false) query := Nested.phrase_tokens hn hquery
  obtain ⟨words, hwords, hobject⟩ := Nested.words?_eq hquery
  have hatom : Predicate.atom? p Nested.words? (.inQuery column q)
      = some ⟨p.referenceWords column, .in_, Token.words query⟩ := by
    rw [Predicate.atom?, hwords, hobject]
    rfl
  have hread := Atom.read_append (t := .keyword .in_) (passes_relates_referenceWords (p := p) column) rfl
    (Nested.passes_relates hn hquery)
  rw [List.append_assoc]
  refine readsAs_relation (isSubject_checkedReference hsubject) (hphrase.uncut_spaced (by simp)) ?_ hatom negated
  rw [words_checkedReference hsubject]
  exact hread

theorem readsAs_between {negated : Bool} {column : String} {low high : Value}
    (h : Predicate.tokens p negated (.between column low high) = .ok ts) :
    ReadsAs (Atom.value? w) (Token.words ts)
      ((Predicate.value p Nested.words? w (.between column low high)).negate negated) := by
  obtain ⟨subject, hsubject, h⟩ := bind_eq_ok h
  cases h
  have hbounds : Uncut (Token.words
      (Token.spaced .between ++ [Token.value low] ++ Token.spaced .and ++ [Token.value high])) :=
    .between low high
  have hobject : Passes Level.relates ⟨0, true⟩ {} [.param low, .keyword .and, .param high] :=
    .cons rfl (.cons rfl (.token rfl rfl))
  have hread := Atom.read_append (t := .keyword .between) (passes_relates_referenceWords (p := p) column) rfl hobject
  rw [← words_checkedReference hsubject] at hread
  have hatom : Predicate.atom? p Nested.words? (.between column low high)
      = some ⟨Token.words subject, .between, [.param low, .keyword .and, .param high]⟩ := by
    rw [Predicate.atom?, words_checkedReference hsubject]
  have hreads := readsAs_relation (w := w) (isSubject_checkedReference hsubject) hbounds hread hatom negated
  simp only [← List.append_assoc] at hreads
  exact hreads

theorem readsAs_exists {negated : Bool} {q : Nested} (hn : q.IsPhrase p F)
    (h : Predicate.tokens p negated (.exists q) = .ok ts) :
    ReadsAs (Atom.value? w) (Token.words ts)
      ((Predicate.value p Nested.words? w (.exists q)).negate negated) := by
  obtain ⟨query, hquery, h⟩ := bind_eq_ok h
  cases h
  have hphrase : Phrase p F (fun _ => false) query := Nested.phrase_tokens hn hquery
  obtain ⟨words, hwords, hobject⟩ := Nested.words?_eq hquery
  have hatom : Predicate.atom? p Nested.words? (.exists q) = some ⟨[], .exists, Token.words query⟩ := by
    rw [Predicate.atom?, hwords, hobject]
    rfl
  have hread : Atom.read (.keyword .exists :: Token.words query) = some ⟨[], .exists, Token.words query⟩ :=
    Atom.read_append (t := .keyword .exists) .nil rfl (Nested.passes_relates hn hquery)
  have hreads : ReadsAs (Atom.value? w) (Token.words ([.keyword .exists, .space] ++ query))
      (Predicate.value p Nested.words? w (.exists q)) := by
    rw [Predicate.value_eq hatom]
    exact .atom ⟨⟨_, _, rfl, rfl⟩, (Uncut.keyword (k := .exists) (by simp)).append hphrase.uncut⟩
      (congrArg (Option.map w) hread)
  rw [List.append_assoc, Token.words_append]
  exact hreads.notBefore negated

/-- Connected factors in parentheses are read as their truth values are connected. -/
theorem readsAs_group {list : List (Connector × List (Token Value))} {truths : List (Connector × Truth)}
    (hne : list ≠ []) (hphrases : ∀ e ∈ list, Phrase p F Keyword.isInner e.2)
    (h : List.Forall₂ (fun e x => e.1 = x.1 ∧ ReadsAs (Atom.value? w) (Token.words e.2) x.2) list truths) (negated : Bool) :
    ReadsAs (Atom.value? w) (Token.words (Token.notBefore negated ++ Token.parenthesized (connect list)))
      ((connected truths).negate negated) := by
  have hgroup : ReadsAs (Atom.value? w) (Token.parenthesized (Token.words (connect list))) (connected truths) := by
    refine ReadsAs.parenthesized (Phrase.connect hne hphrases) fun n hn => ?_
    obtain ⟨m, rfl⟩ := Nat.exists_eq_succ_of_ne_zero (Nat.ne_of_gt (Nat.zero_lt_of_lt hn))
    exact readWords_connect hne (Nat.le_of_lt_succ hn) h
  rw [Token.words_append, Token.words_parenthesized]
  exact hgroup.notBefore negated

/-! ## Conditions and lists -/

mutual

theorem Condition.readsAs {condition : Condition Nested} {ts : List (Token Value)}
    (hn : ∀ n ∈ condition.nested, n.IsPhrase p F) (hf : condition.fragments = [])
    (hv : condition.isVacuous = false) (h : condition.tokens p = .ok ts) :
    ReadsAs (Atom.value? w) (Token.words ts) (condition.truth (Predicate.value p Nested.words? w)) :=
  match condition with
  | ⟨_, _, _⟩ => Predicate.readsAs hn hf hv h

theorem Predicate.readsAs {negated : Bool} {predicate : Predicate Nested (Condition Nested)}
    {ts : List (Token Value)} (hn : ∀ n ∈ Predicate.nested predicate, n.IsPhrase p F)
    (hf : Predicate.fragments predicate = []) (hv : Predicate.isVacuous predicate = false)
    (h : Predicate.tokens p negated predicate = .ok ts) :
    ReadsAs (Atom.value? w) (Token.words ts) ((Predicate.truth (Predicate.value p Nested.words? w) predicate).negate negated) := by
  match predicate with
  | .compare column op operand => exact readsAs_comparison hn hf h
  | .inValues column values => exact readsAs_membership h
  | .inQuery column q => exact readsAs_inQuery (hn q (List.mem_singleton_self q)) h
  | .between column low high => exact readsAs_between h
  | .isNull column =>
    obtain ⟨subject, hsubject, h⟩ := bind_eq_ok h
    cases h
    have hread := readsAs_nullTest (w := w) hsubject !negated
    rwa [Bool.not_not] at hread
  | .like column pattern caseSensitive => exact readsAs_patternMatch h
  | .exists q => exact readsAs_exists (hn q (List.mem_singleton_self q)) h
  | .group members =>
    obtain ⟨list, hlist, h⟩ := bind_eq_ok h
    cases h
    have hfragments : Condition.fragmentsList members = [] := hf
    have hphrases := Condition.phrase_tokensEach hn (by simp [hfragments]) hlist
    have hmembers := Condition.readsAs_tokensEach hn hf hlist
    exact readsAs_group (hphrases.1 hv) hphrases.2 hmembers negated
  | .raw fragment => cases hf

theorem Condition.readsAs_tokensEach {list : List (Condition Nested)}
    {emitted : List (Connector × List (Token Value))}
    (hn : ∀ n ∈ Condition.nestedList list, n.IsPhrase p F) (hf : Condition.fragmentsList list = [])
    (h : Condition.tokensEach p list = .ok emitted) :
    List.Forall₂ (fun e x => e.1 = x.1 ∧ ReadsAs (Atom.value? w) (Token.words e.2) x.2) emitted
      (Condition.truths (Predicate.value p Nested.words? w) list) := by
  match list with
  | [] =>
    cases h
    exact .nil
  | condition :: rest =>
    rw [Condition.nestedList, List.forall_mem_append] at hn
    rw [Condition.fragmentsList, List.append_eq_nil_iff] at hf
    rw [Condition.tokensEach] at h
    rw [Condition.truths]
    split at h
    next hv =>
      rw [if_pos hv]
      exact Condition.readsAs_tokensEach hn.2 hf.2 h
    next hv =>
      obtain ⟨tokens, htokens, h⟩ := bind_eq_ok h
      obtain ⟨more, hmore, h⟩ := bind_eq_ok h
      cases h
      rw [if_neg hv]
      rw [Bool.not_eq_true] at hv
      have hfirst := Condition.readsAs hn.1 hf.1 hv htokens
      exact .cons ⟨rfl, hfirst⟩ (Condition.readsAs_tokensEach hn.2 hf.2 hmore)

end

theorem Condition.readTruth_emitted {list : List (Condition Nested)}
    (hn : ∀ n ∈ Condition.nestedList list, n.IsPhrase p F) (hf : Condition.fragmentsList list = [])
    (h : Condition.listTokens p list = .ok ts) (hall : Condition.allVacuous list = false) :
    readTruth (Atom.value? w) ts = some (Condition.listTruth (Predicate.value p Nested.words? w) list) := by
  obtain ⟨emitted, hemitted, rfl⟩ := map_eq_ok h
  have hphrases := Condition.phrase_tokensEach hn (by simp [hf]) hemitted
  have hreads := Condition.readsAs_tokensEach (w := w) hn hf hemitted
  exact readWords_connect (hphrases.1 hall) (Token.length_words_le _) hreads

/-! ## Conditions of a query -/

/-- The words of a query as it is emitted inside a statement. -/
def Query.words? (t : Target) (q : Query) : Option (List (Token Value)) :=
  (q.emit t).words ⟨{}, 1⟩

theorem Query.words?_eq (t : Target) : Nested.words? ∘ Query.nested t = Query.words? t :=
  funext fun q => ((q.writes t).emit.words Nat.one_pos).symm

theorem Query.isPhrase (t : Target) (q : Query) : (q.nested t).IsPhrase t.profile fun _ => True :=
  Query.isPhrase_nested (Query.everywhere_of_forall (fun _ _ _ => trivial) q)

theorem Clause.holds_nested (t : Target) (clause : Clause Query) :
    (clause.map (Query.nested t)).Holds (Nested.IsPhrase t.profile fun _ => True) fun _ => True :=
  Clause.holds_map (fun _ _ => trivial) fun q _ => q.isPhrase t

theorem Condition.isPhrase_nestedList (t : Target) (list : List (Condition Query)) :
    ∀ n ∈ Condition.nestedList (Condition.mapList (Query.nested t) list),
      n.IsPhrase t.profile fun _ => True := by
  rw [Condition.nestedList_mapList]
  exact List.forall_mem_map.2 fun q _ => q.isPhrase t

/-- Some condition that a view finds among the clauses is no empty group. -/
theorem exists_mem_filterMap {σ τ : Type} {f : σ → τ} {view : Clause τ → Option (Condition τ)}
    {make : Condition σ → Clause σ} {clauses : Clauses σ}
    (hview : ∀ clause c, view (Clause.map f clause) = some c ↔ ∃ c', clause = make c' ∧ c'.map f = c) :
    (∃ c ∈ (clauses.map (Clause.map f)).filterMap view, c.isVacuous = false) ↔
      ∃ c, make c ∈ clauses ∧ c.isVacuous = false := by
  simp only [List.filterMap_map, List.mem_filterMap, Function.comp_apply, hview]
  constructor
  · rintro ⟨_, ⟨clause, hclause, c, rfl, rfl⟩, hc⟩
    exact ⟨c, hclause, by rwa [Condition.isVacuous_map] at hc⟩
  · rintro ⟨c, hclause, hc⟩
    exact ⟨c.map f, ⟨make c, hclause, c, rfl, rfl⟩, by rwa [Condition.isVacuous_map]⟩

theorem Clause.filter?_map_eq_some {σ τ : Type} {f : σ → τ} (clause : Clause σ) (c : Condition τ) :
    (clause.map f).filter? = some c ↔ ∃ c', clause = .filter c' ∧ c'.map f = c := by
  cases clause <;> simp [Clause.map, Clause.filter?]

theorem Clause.having?_map_eq_some {σ τ : Type} {f : σ → τ} (clause : Clause σ) (c : Condition τ) :
    (clause.map f).having? = some c ↔ ∃ c', clause = .having c' ∧ c'.map f = c := by
  cases clause <;> simp [Clause.map, Clause.having?]

/-- For every target: a list of conditions is emitted as nothing when it has only empty groups, and as a text
that is read as the value of the list otherwise, whatever the values of the atoms are. No group is emitted as an
empty pair of parentheses. There are a `WHERE`, a `HAVING` and an `ON` exactly for conditions that are no empty
groups. -/
theorem Condition.readTruth_emitList (t : Target) (c after : Context) (hc : 0 < c.depth) (ts : List (Token Nat)) :
    (∀ list : List (Condition Query), Condition.fragmentsList list = [] →
      (Condition.emitList t.profile (Condition.mapList (Query.subquery t) list)).run c = .ok (ts, after) →
      (ts ≠ [] ↔ ∃ condition ∈ list, condition.isVacuous = false) ∧
        (ts ≠ [] → ∀ w, readTruth (Atom.value? w) (after.bindings.restore ts)
          = some (Condition.listTruth (Predicate.value t.profile (Query.words? t) w) list))) ∧
    (∀ list : List (Condition Query),
      (Condition.emitList t.profile (Condition.mapList (Query.subquery t) list)).run c = .ok (ts, after) →
      Token.EmptyPairsCalled (after.bindings.restore ts)) ∧
    (∀ (clauses : Clauses Query) (s : Sections Query) (shape : Shape), Sections.ofClauses clauses = .ok s →
      (emitSelect t (s.map (Query.subquery t)) shape).run c = .ok (ts, after) →
      (Token.standsOutside .where_ 0 (after.bindings.restore ts) = true ↔
          ∃ condition, .filter condition ∈ clauses ∧ condition.isVacuous = false) ∧
        (Token.standsOutside .having 0 (after.bindings.restore ts) = true ↔
          ∃ condition, .having condition ∈ clauses ∧ condition.isVacuous = false)) ∧
    (∀ j : Join Query, ((j.map (Query.subquery t)).emit t.profile).run c = .ok (ts, after) →
      (Token.standsOutside .on 0 (after.bindings.restore ts) = true ↔
        ∃ condition ∈ j.conditions, condition.isVacuous = false)) := by
  have hwrites (q : Query) : (q.subquery t).Writes (q.nested t) := q.writes t
  refine ⟨fun list hf h => ?meaning, fun list h => ?pairs, fun clauses s shape hs h => ?sections, fun j h => ?join⟩
  case meaning =>
    obtain ⟨tokens, htokens, hnumber, hrestore⟩ :=
      (Condition.writes_list t.profile list fun q _ => hwrites q).exists_tokens hc h
    have hn := Condition.isPhrase_nestedList t list
    have hfragments := (Condition.fragmentsList_mapList (Query.nested t) list).trans hf
    have hvacuous := Condition.allVacuous_mapList (Query.nested t) list
    have hts : ts = Token.renumber c.bindings.size tokens := (congrArg Prod.fst hnumber).symm
    rw [← Condition.allVacuous_eq_false, ← hvacuous, hrestore]
    obtain ⟨hall, rfl⟩ | ⟨hall, hphrase⟩ := Condition.phrase_listTokens hn (fun _ _ => trivial) htokens
    · simp [hall, hts]
    · have hne : ts ≠ [] := by
        rw [hts, ← List.isEmpty_eq_false_iff, Token.isEmpty_renumber, List.isEmpty_eq_false_iff]
        exact hphrase.wellPaired.ne_nil
      refine ⟨by simp [hne, hall], fun _ w => ?_⟩
      rw [Condition.readTruth_emitted hn hfragments htokens hall, Condition.listTruth_mapList, ← Query.words?_eq]
      exact congrArg (fun value => some (Condition.listTruth value list))
        (funext fun predicate => congrArg (fun atom => (Option.map w atom).getD .unknown)
          (Predicate.atom?_map (Query.nested t) predicate))
  case pairs =>
    obtain ⟨tokens, htokens, -, hrestore⟩ :=
      (Condition.writes_list t.profile list fun q _ => hwrites q).exists_tokens hc h
    rw [hrestore]
    have hn := Condition.isPhrase_nestedList t list
    obtain ⟨-, rfl⟩ | ⟨-, hphrase⟩ := Condition.phrase_listTokens hn (fun _ _ => trivial) htokens
    · exact emptyPairsCalled_nil
    · exact hphrase.wellPaired.pairs
  case sections =>
    obtain ⟨tokens, htokens, -, hrestore⟩ := (writes_select shape fun q _ => hwrites q).exists_tokens hc h
    rw [hrestore]
    have hmap : Sections.ofClauses (clauses.map (Clause.map (Query.nested t))) = .ok (s.map (Query.nested t)) := by
      rw [Sections.ofClauses_map, hs]
      rfl
    have hholds : (s.map (Query.nested t)).Holds (Nested.IsPhrase t.profile fun _ => True) fun _ => True := by
      refine Sections.holds_ofClauses (fun clause hclause => ?_) hmap
      obtain ⟨inner, -, rfl⟩ := List.mem_map.1 hclause
      exact inner.holds_nested t
    rw [standsOutside_where hholds htokens, standsOutside_having hholds htokens, Bool.not_eq_true', Bool.not_eq_true',
      Condition.allVacuous_eq_false, Condition.allVacuous_eq_false]
    obtain ⟨items, -, hitems⟩ := map_eq_ok hmap
    rw [← hitems]
    exact ⟨exists_mem_filterMap Clause.filter?_map_eq_some, exists_mem_filterMap Clause.having?_map_eq_some⟩
  case join =>
    obtain ⟨tokens, htokens, -, hrestore⟩ := (Join.writes fun q _ => hwrites q).exists_tokens hc h
    have hholds := Clause.holds_nested t (.join j)
    rw [hrestore, standsOutside_on hholds.1 hholds.2 htokens, Bool.not_eq_true', Join.map,
      Condition.allVacuous_mapList, Condition.allVacuous_eq_false]

/-- Conditions after an empty group, negated in several ways, and two that differ in their signs only. -/
def negations : List (Condition Query) :=
  [⟨.or, false, .group []⟩,
    ⟨.or, true, .group [⟨.and, false, .compare "a" .eq (.value .null)⟩, ⟨.or, false, .inValues "b" []⟩]⟩,
    ⟨.and, true, .between "c" (.int 1) (.int 2)⟩,
    ⟨.or, false, .compare "d" .eq (.value (.int 1))⟩, ⟨.and, false, .compare "d" .ne (.value (.int 1))⟩]

/-- Equations hold, tests for null are unknown and every other atom is false. -/
def equations (atom : Atom) : Truth :=
  match atom.relation with
  | .compare .eq => .yes
  | .isNull => .unknown
  | _ => .no

/-- The equation holds and the inequation does not, so that only the unknown test for null is left. -/
theorem Condition.readTruth_emitList_negations :
    ∃ ts after select behind join last s,
      (Condition.emitList ({} : Compiler).target.profile
        (Condition.mapList (Query.subquery ({} : Compiler).target) negations)).run ⟨{}, 1⟩ = .ok (ts, after) ∧
      readTruth (Atom.value? equations) (after.bindings.restore ts) = some .unknown ∧
      Token.EmptyPairsCalled (after.bindings.restore ts) ∧
      Sections.ofClauses (.from (.table "t" none) :: negations.map .filter) = .ok s ∧
      (emitSelect ({} : Compiler).target (s.map (Query.subquery ({} : Compiler).target)) .plain).run ⟨{}, 1⟩
        = .ok (select, behind) ∧
      Token.standsOutside .where_ 0 (behind.bindings.restore select) = true ∧
      ¬ Token.standsOutside .having 0 (behind.bindings.restore select) = true ∧
      (((⟨.left, .table "u" none, negations⟩ : Join Query).map (Query.subquery ({} : Compiler).target)).emit
        ({} : Compiler).target.profile).run ⟨{}, 1⟩ = .ok (join, last) ∧
      Token.standsOutside .on 0 (last.bindings.restore join) = true := by
  have hlast : ∃ c ∈ negations, c.isVacuous = false :=
    ⟨⟨.and, true, .between "c" (.int 1) (.int 2)⟩, by simp [negations], rfl⟩
  obtain ⟨hmeaning, hpairs, -, -⟩ := Condition.readTruth_emitList ({} : Compiler).target ⟨{}, 1⟩ _ Nat.one_pos _
  obtain ⟨-, -, hsections, -⟩ := Condition.readTruth_emitList ({} : Compiler).target ⟨{}, 1⟩ _ Nat.one_pos _
  obtain ⟨-, -, -, hjoin⟩ := Condition.readTruth_emitList ({} : Compiler).target ⟨{}, 1⟩ _ Nat.one_pos _
  have hread := hmeaning negations rfl rfl
  have hsections := hsections (.from (.table "t" none) :: negations.map .filter) _ .plain rfl rfl
  refine ⟨_, _, _, _, _, _, _, rfl, ?_, hpairs negations rfl, rfl, rfl, ?_, ?_, rfl, ?_⟩
  · rw [hread.2 (hread.1.2 hlast) equations]
    rfl
  · obtain ⟨c, hc, hv⟩ := hlast
    exact hsections.1.2 ⟨c, by simp [hc], hv⟩
  · rw [hsections.2]
    simp
  · exact (hjoin ⟨.left, .table "u" none, negations⟩ rfl).2 hlast

end QueryCompiler
