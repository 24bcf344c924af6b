-- SUMMARY: The queries whose names come out right, told by the names that they refer to and those that they give.
import QueryCompiler.Proofs.Aliases
import QueryCompiler.Proofs.Validity

/-!
# Names of statements

Each part of a query mentions names: it refers to something by them, or it gives
them. A name that is referred to comes out right when none of its segments is
blank, a name that is given when it is neither blank nor a star. The emitters look
at few of these conditions. So a statement has the right names exactly when the
mentioned names of every level are proper, and the main result says this of every
statement that is emitted.
-/

namespace QueryCompiler

variable {σ : Type}

/-! ## Mentioned names -/

/-- A name that can be given: neither blank nor a star. -/
structure IsAlias (name : String) : Prop where
  notBlank : IsName name
  notStar : Text.trim name.toList ≠ ['*']

instance (name : String) : Decidable (IsAlias name) :=
  decidable_of_iff (Text.isVoid name = false ∧ Text.trim name.toList ≠ ['*'])
    ⟨fun h => ⟨h.1, h.2⟩, fun h => ⟨h.notBlank, h.notStar⟩⟩

/-- A name that can be referred to: none of its segments is blank. -/
def Profile.IsReference (p : Profile) (name : String) : Prop :=
  ∀ segment ∈ p.quotes.split (Text.trim name.toList), Text.trim segment ≠ []

/-- A name, as it is mentioned. -/
inductive Mention where
  | reference (name : String)
  | newName (name : String)
deriving DecidableEq, Repr

def Mention.IsProper (p : Profile) : Mention → Prop
  | .reference name => p.IsReference name
  | .newName name => IsAlias name

def Operand.mentions : Operand σ → List Mention
  | .column name => [.reference name]
  | _ => []

mutual

def Condition.mentions : Condition σ → List Mention
  | ⟨_, _, predicate⟩ => Predicate.mentions predicate

/-- The names of a predicate. Membership in no values does not come to its column. -/
def Predicate.mentions : Predicate σ (Condition σ) → List Mention
  | .compare column _ operand => .reference column :: operand.mentions
  | .inValues column values => if values.isEmpty then [] else [.reference column]
  | .inQuery column _ | .between column _ _ | .isNull column | .like column _ _ => [.reference column]
  | .exists _ | .raw _ => []
  | .group members => Condition.mentionsList members

def Condition.mentionsList : List (Condition σ) → List Mention
  | [] => []
  | condition :: rest => condition.mentions ++ Condition.mentionsList rest

end

def Term.mentions : Term → List Mention
  | .column name => [.reference name]
  | .raw _ => []

def Selection.mentions : Selection σ → List Mention
  | .column c => .reference c.qualifiedName :: c.aliasName.toList.map .newName
  | .raw _ => []
  | .aggregate _ name aliasName => .reference name :: aliasName.toList.map .newName
  | .subquery _ aliasName => [.newName aliasName]

/-- The name of a table and its alias, which it may have inline. -/
def tableNames (name : String) : Option String → String × Option String
  | some aliasName => (name, some aliasName)
  | none => InlineAlias.splitText name

def Source.mentions : Source σ → List Mention
  | .table name aliasName =>
    .reference (tableNames name aliasName).1 :: (tableNames name aliasName).2.toList.map .newName
  | .subquery _ aliasName => [.newName aliasName]
  | .raw _ => []

def Join.mentions (j : Join σ) : List Mention :=
  j.source.mentions ++ Condition.mentionsList j.conditions

namespace Sections

/-- The names of a SELECT other than those of its order. -/
def selectMentions (s : Sections σ) : List Mention :=
  s.items.flatMap Selection.mentions ++ s.source.toList.flatMap Source.mentions ++ s.joins.flatMap Join.mentions
    ++ Condition.mentionsList s.filters ++ s.groups.flatMap Term.mentions ++ Condition.mentionsList s.havings

/-- The names of a SELECT and its order, those of the order as they are seen from where it stands. -/
def pagedMentions (p : Profile) (s : Sections σ) : List Mention :=
  s.selectMentions ++ s.orders.flatMap fun order => (s.orderTerm p order.1).mentions

/-- The names of a level. -/
def mentions (p : Profile) (s : Sections σ) : List Mention :=
  s.ctes.map (fun cte => .newName cte.1) ++ s.pagedMentions p

end Sections

/-! ## Names with their nested queries -/

/-- Mentioned names that are proper, beside nested queries with the property `N`. -/
def Proper (p : Profile) (N : σ → Prop) (ms : List Mention) (qs : List σ) : Prop :=
  (∀ m ∈ ms, m.IsProper p) ∧ ∀ q ∈ qs, N q

section

variable {p : Profile} {N : σ → Prop} {ms ms' : List Mention} {qs qs' : List σ}

@[simp] theorem proper_nil_left : Proper p N [] qs ↔ ∀ q ∈ qs, N q := by
  simp [Proper]

@[simp] theorem proper_nil_right : Proper p N ms [] ↔ ∀ m ∈ ms, m.IsProper p := by
  simp [Proper]

theorem proper_append : Proper p N (ms ++ ms') (qs ++ qs') ↔ Proper p N ms qs ∧ Proper p N ms' qs' := by
  rw [Proper, List.forall_mem_append, List.forall_mem_append, and_and_and_comm]
  exact Iff.rfl

theorem proper_flatMap {ι : Type} {xs : List ι} {ms : ι → List Mention} {qs : ι → List σ} :
    Proper p N (xs.flatMap ms) (xs.flatMap qs) ↔ ∀ x ∈ xs, Proper p N (ms x) (qs x) := by
  rw [Proper, List.forall_mem_flatMap, List.forall_mem_flatMap, ← forall₂_and]
  exact Iff.rfl

end

/-! ## Segments -/

section

variable {α : Type} {p : Profile} {cs : List Char}

theorem segmentToken_ne_ident : (p.segmentToken cs : Token α) ≠ .ident "" ↔ cs ≠ [] := by
  unfold Profile.segmentToken
  split
  next hstar => simp [hstar]
  next =>
    split
    next hquoted =>
      refine iff_of_true (by simp) ?_
      rintro rfl
      cases hquoted
    next => simp

theorem segmentToken_isIdentifier (hcs : cs ≠ []) :
    (p.segmentToken cs : Token α).IsIdentifier p ↔ cs ≠ ['*'] := by
  unfold Profile.segmentToken
  split
  next hstar => exact iff_of_false (by simp [Token.IsIdentifier]) (by simp [hstar])
  next hstar =>
    split
    next hquoted => exact iff_of_true (by simpa [Token.IsIdentifier] using hquoted) hstar
    next => exact iff_of_true (by simpa [Token.IsIdentifier] using hcs) hstar

theorem isName_segmentToken : (p.segmentToken cs : Token α).isName = true := by
  unfold Profile.segmentToken
  split
  · rfl
  · split <;> rfl

theorem aliasToken_proper_iff {name : String} :
    ((p.aliasToken name : Token α) ≠ .ident "" ∧ (p.aliasToken name : Token α).IsIdentifier p) ↔ IsAlias name := by
  have hne : (p.aliasToken name : Token α) ≠ .ident "" ↔ Text.trim name.toList ≠ [] := segmentToken_ne_ident
  rw [hne]
  constructor
  · rintro ⟨hname, hidentifier⟩
    exact ⟨isName_iff.2 hname, (segmentToken_isIdentifier hname).1 hidentifier⟩
  · rintro ⟨hname, hstar⟩
    exact ⟨isName_iff.1 hname, (segmentToken_isIdentifier (isName_iff.1 hname)).2 hstar⟩

end

/-! ## Emitters of names -/

namespace Token

variable {α : Type} {ts : List (Token α)}

/-- The last of the tokens may have an alias. -/
def EndsSource (ts : List (Token α)) : Prop :=
  ∃ front last, ts = front ++ [last] ∧ last.endsSource = true

theorem EndsSource.after (h : EndsSource ts) (front : List (Token α)) : EndsSource (front ++ ts) := by
  obtain ⟨inner, last, rfl, hlast⟩ := h
  exact ⟨front ++ inner, last, by simp, hlast⟩

theorem endsSource_parenthesized : EndsSource (parenthesized ts) :=
  ⟨.symbol .lparen :: ts, .symbol .rparen, rfl, rfl⟩

end Token

section

variable {α : Type} {p : Profile} {C : Prop} {ts : List (Token α)}

theorem Naming.segment (cs : List Char) : Naming p (cs ≠ []) [(p.segmentToken cs : Token α)] := by
  have hname : (p.segmentToken cs : Token α).isName = true := isName_segmentToken
  refine (Naming.single ?_ ?_).congr segmentToken_ne_ident <;> intro h <;> rw [h] at hname <;> cases hname

/-- A name whose segments are not blank, and that a table alias may follow. -/
theorem naming_reference (name : String) :
    Naming p (p.IsReference name) (p.reference name : List (Token α)) ∧
      Token.EndsSource (p.reference name : List (Token α)) := by
  unfold Profile.IsReference Profile.reference
  obtain ⟨first, rest, hsplit⟩ := List.exists_cons_of_ne_nil
    (p.quotes.splitFrom_ne_nil .outside (Text.trim name.toList))
  rw [QuotePair.split, hsplit]
  clear hsplit
  induction rest generalizing first with
  | nil =>
    have hlast : (p.segmentToken (Text.trim first) : Token α).endsSource = true :=
      Bool.or_eq_true_iff.2 (.inl isName_segmentToken)
    exact ⟨(Naming.segment _).congr (by simp), [], _, rfl, hlast⟩
  | cons next rest ih =>
    obtain ⟨hnaming, hend⟩ := ih next
    refine ⟨?_, hend.after [p.segmentToken (Text.trim first), .symbol .dot]⟩
    exact ((Naming.segment _).append ((Naming.symbol .dot).before hnaming)).congr
      (by simp only [List.forall_mem_cons])

theorem naming_checkedReference {place : NamePlace} {name : String} {ts : List (Token Value)}
    (h : p.checkedReference place name = .ok ts) : Naming p (p.IsReference name) ts := by
  obtain ⟨-, -, h⟩ := bind_eq_ok h
  cases h
  exact (naming_reference name).1

theorem ne_of_isName {t u : Token α} (ht : t.isName = true) (hu : u.isName = false) : t ≠ u := by
  rintro rfl
  exact absurd (ht.symm.trans hu) (by decide)

/-- An alias behind `AS`. -/
theorem naming_asAlias (name : String) :
    Naming p (IsAlias name) (Token.spaced .as ++ [(p.aliasToken name : Token α)]) := by
  have hname : (p.aliasToken name : Token α).isName = true := isName_segmentToken
  exact (Naming.as (ne_of_isName hname rfl) (ne_of_isName hname rfl) (ne_of_isName hname rfl)).congr
    aliasToken_proper_iff

theorem Naming.tableAlias (h : Naming p C ts) (hend : Token.EndsSource ts) (name : String) :
    Naming p (C ∧ IsAlias name) (ts ++ p.tableAlias name) := by
  unfold Profile.tableAlias
  split
  next => exact h.append (naming_asAlias name)
  next hp =>
    obtain ⟨front, last, rfl, hlast⟩ := hend
    have hname : (p.aliasToken name : Token α).isName = true := isName_segmentToken
    exact (Naming.apart (by simpa using hp) h hlast hname).congr (and_congr_right fun _ => aliasToken_proper_iff)

theorem naming_aliasTokens (aliasName : Option String) :
    Naming p (∀ m ∈ aliasName.toList.map Mention.newName, m.IsProper p)
      (aliasTokens p aliasName : List (Token α)) := by
  cases aliasName with
  | none => exact Naming.nil.congr (by simp)
  | some name => exact (naming_asAlias name).congr (by simp [Mention.IsProper])

theorem naming_table (name : String) (aliasName : Option String) :
    Naming p (∀ m ∈ (Source.table name aliasName : Source σ).mentions, m.IsProper p)
      (p.table name aliasName : List (Token α)) := by
  have htable : (p.table name aliasName : List (Token α)) = p.reference (tableNames name aliasName).1 ++
      ((tableNames name aliasName).2.map p.tableAlias).getD [] := by
    cases aliasName with
    | some aliasName => rfl
    | none =>
      dsimp only [Profile.table, tableNames]
      split
      next heq => simp [heq]
      next heq => simp [heq]
  obtain ⟨hnaming, hend⟩ := naming_reference (p := p) (α := α) (tableNames name aliasName).1
  rw [htable, Source.mentions]
  cases (tableNames name aliasName).2 with
  | none => exact (hnaming.after .nil).congr (by simp [Mention.IsProper])
  | some aliasName => exact (hnaming.tableAlias hend aliasName).congr (by simp [Mention.IsProper])

end

/-! ## Emitters of conditions -/

/-- A nested query whose names are right exactly under the condition `C`, if it is emitted. -/
def Nested.IsNaming (p : Profile) (C : Prop) (n : Nested) : Prop :=
  ∀ ts, n.statement = .ok ts → Naming p C ts

section

variable {p : Profile} {f : σ → Nested} {N : σ → Prop} {C D : Prop} {a ts : List (Token Value)}

theorem Nested.IsNaming.tokens {n : Nested} (hn : n.IsNaming p C) (h : n.tokens = .ok ts) : Naming p C ts := by
  obtain ⟨inner, hinner, rfl⟩ := map_eq_ok h
  exact (hn inner hinner).parenthesized

theorem Fragment.naming_fill (parts : List Part) (values : List Value) : Naming p True (fill parts values) := by
  induction parts generalizing values with
  | nil => exact .nil
  | cons part rest ih =>
    cases part with
    | text cs => exact (Naming.raw _).before (ih values)
    | marker =>
      cases values with
      | nil => exact ih []
      | cons v values => exact (Naming.neutral rfl).before (ih values)

theorem Fragment.naming_tokens {fragment : Fragment} (h : fragment.tokens = .ok ts) : Naming p True ts := by
  unfold tokens at h
  split at h
  · cases h
    exact naming_fill _ _
  · cases h

theorem naming_notBefore (negated : Bool) : Naming p True (Token.notBefore negated : List (Token Value)) := by
  cases negated with
  | false => exact .nil
  | true => exact .neutral_space rfl

theorem naming_notAfter (negated : Bool) : Naming p True (Token.notAfter negated : List (Token Value)) := by
  cases negated with
  | false => exact .nil
  | true => exact .space_neutral rfl

theorem Operand.naming_tokens {operand : Operand σ} (hn : ∀ q ∈ operand.nested, (f q).IsNaming p (N q))
    (h : (operand.map f).tokens p = .ok ts) : Naming p (Proper p N operand.mentions operand.nested) ts := by
  cases operand with
  | value v =>
    cases h
    exact (Naming.neutral rfl).congr (by simp [mentions, nested])
  | column name => exact (naming_checkedReference h).congr (by simp [mentions, nested, Mention.IsProper])
  | query q =>
    exact ((hn q (List.mem_singleton_self q)).tokens h).congr (by simp [mentions, nested])
  | raw fragment => exact (Fragment.naming_tokens h).congr (by simp [mentions, nested])

theorem Naming.negated (negated : Bool) (h : Naming p C ts) :
    Naming p C (if negated then Token.notBefore true ++ Token.parenthesized ts else ts) := by
  split
  · exact (naming_notBefore true).before h.parenthesized
  · exact h

/-- A relation: a column, the words in between, and what the column is related to. -/
theorem Naming.relation {k : Keyword} (hk : k ≠ .as) (negated : Bool) (ha : Naming p C a) (h : Naming p D ts) :
    Naming p (C ∧ D) (a ++ Token.notAfter negated ++ Token.spaced k ++ ts) :=
  ((ha.after (naming_notAfter negated)).after (Naming.spaced hk)).append h

theorem Naming.value (v : Value) : Naming p True [Token.value v] :=
  .neutral rfl

theorem naming_nullTest (isNull : Bool) (h : Naming p C a) : Naming p C (nullTest a isNull) :=
  h.after (.space_neutral (by cases isNull <;> rfl))

theorem naming_comparison {negated : Bool} {column : String} {op : Comparison} {operand : Operand σ}
    (hn : ∀ q ∈ operand.nested, (f q).IsNaming p (N q))
    (h : comparison p negated column op (operand.map f) = .ok ts) :
    Naming p (p.IsReference column ∧ Proper p N operand.mentions operand.nested) ts := by
  obtain ⟨subject, hsubject, h⟩ := bind_eq_ok h
  have hsubject := naming_checkedReference hsubject
  rw [Comparison.nullTest?_map] at h
  cases htest : op.nullTest? operand with
  | some isNull =>
    rw [htest] at h
    cases h
    refine (naming_nullTest _ hsubject).congr (and_iff_left ?_).symm
    unfold Comparison.nullTest? at htest
    split at htest <;> cases htest <;> simp [Operand.mentions, Operand.nested]
  | none =>
    rw [htest] at h
    obtain ⟨object, hobject, h⟩ := bind_eq_ok h
    cases h
    have hsymbol : (.symbol op.symbol : Token Value).isNeutral = true := by cases op <;> rfl
    exact ((hsubject.after (.between hsymbol)).append (operand.naming_tokens hn hobject)).negated negated

theorem naming_constantTest (holds : Bool) : Naming p True (constantTest holds : List (Token Value)) :=
  (Naming.neutral rfl).before ((Naming.between rfl).before (.neutral rfl))

theorem naming_membership {negated : Bool} {column : String} {values : List Value}
    (h : membership p negated column values = .ok ts) :
    Naming p (values.isEmpty = false → p.IsReference column) ts := by
  obtain ⟨subject, hsubject, h⟩ := bind_eq_ok h
  split at h
  next hempty =>
    cases h
    exact (naming_constantTest negated).congr (by simp [hempty])
  next hempty =>
    cases h
    have hvalues : List.Forall₂ (fun _ group => Naming p True group) values
        (values.map fun v => [Token.value v]) :=
      List.forall₂_map_right_iff.2 (List.forall₂_same.2 fun v _ => .value v)
    have hlist := (Naming.commaSeparated hvalues).parenthesized
    refine ((naming_checkedReference hsubject).relation (by decide) negated hlist).congr ?_
    simp [hempty]

theorem naming_patternMatch {negated : Bool} {column pattern : String} {caseSensitive : Bool}
    (h : patternMatch p negated column pattern caseSensitive = .ok ts) : Naming p (p.IsReference column) ts := by
  obtain ⟨subject, hsubject, h⟩ := bind_eq_ok h
  have hsubject := naming_checkedReference hsubject
  have hmatch {subject : List (Token Value)} (hsubject : Naming p (p.IsReference column) subject) (k : Keyword)
      (hk : k ≠ .as) (bound : String) : Naming p (p.IsReference column)
        (subject ++ Token.notAfter negated ++ Token.spaced k ++ [Token.value (.string bound)]) :=
    (hsubject.relation hk negated (.value _)).congr (and_iff_left trivial)
  cases h
  cases caseSensitive with
  | true => exact hmatch hsubject .like (by decide) pattern
  | false =>
    cases p.caselessMatch with
    | ilike => exact hmatch hsubject .ilike (by decide) pattern
    | lowerCase => exact hmatch (hsubject.function "LOWER") .like (by decide) (Text.lower pattern)

mutual

/-- A group of empty groups mentions nothing. -/
theorem Condition.mentions_of_isVacuous {condition : Condition σ} (h : condition.isVacuous = true) :
    condition.mentions = [] :=
  match condition with
  | ⟨_, _, _⟩ => Predicate.mentions_of_isVacuous h

theorem Predicate.mentions_of_isVacuous {predicate : Predicate σ (Condition σ)}
    (h : Predicate.isVacuous predicate = true) : Predicate.mentions predicate = [] := by
  match predicate with
  | .group members => exact Condition.mentionsList_of_allVacuous h
  | .compare .. | .inValues .. | .inQuery .. | .between .. | .isNull .. | .like .. | .exists .. | .raw .. =>
    cases h

theorem Condition.mentionsList_of_allVacuous {list : List (Condition σ)}
    (h : Condition.allVacuous list = true) : Condition.mentionsList list = [] := by
  match list with
  | [] => rfl
  | condition :: rest =>
    rw [Condition.allVacuous, Bool.and_eq_true] at h
    rw [Condition.mentionsList, Condition.mentions_of_isVacuous h.1, Condition.mentionsList_of_allVacuous h.2]
    rfl

end

mutual

theorem Condition.naming_tokens {condition : Condition σ} {ts : List (Token Value)}
    (hn : ∀ q ∈ condition.nested, (f q).IsNaming p (N q)) (h : (condition.map f).tokens p = .ok ts) :
    Naming p (Proper p N condition.mentions condition.nested) ts :=
  match condition with
  | ⟨_, _, _⟩ => Predicate.naming_tokens hn h

theorem Predicate.naming_tokens {negated : Bool} {predicate : Predicate σ (Condition σ)}
    {ts : List (Token Value)} (hn : ∀ q ∈ Predicate.nested predicate, (f q).IsNaming p (N q))
    (h : Predicate.tokens p negated (Predicate.map f predicate) = .ok ts) :
    Naming p (Proper p N (Predicate.mentions predicate) (Predicate.nested predicate)) ts := by
  match predicate with
  | .compare column op operand =>
    exact (naming_comparison hn h).congr
      (by simp [Proper, Predicate.mentions, Predicate.nested, Mention.IsProper, and_assoc])
  | .inValues column values =>
    refine (naming_membership h).congr ?_
    cases hempty : values.isEmpty <;> simp [Predicate.mentions, Predicate.nested, Mention.IsProper, hempty]
  | .inQuery column q =>
    obtain ⟨subject, hsubject, h⟩ := bind_eq_ok h
    obtain ⟨query, hquery, h⟩ := bind_eq_ok h
    cases h
    have hquery := (hn q (List.mem_singleton_self q)).tokens hquery
    exact ((naming_checkedReference hsubject).relation (by decide) negated hquery).congr
      (by simp [Proper, Predicate.mentions, Predicate.nested, Mention.IsProper])
  | .between column low high =>
    obtain ⟨subject, hsubject, h⟩ := bind_eq_ok h
    cases h
    have hlow := (naming_checkedReference hsubject).relation (k := .between) (by decide) negated (.value low)
    exact ((hlow.after (.spaced (by decide))).after (.value high)).congr
      (by simp [Predicate.mentions, Predicate.nested, Mention.IsProper])
  | .isNull column =>
    obtain ⟨subject, hsubject, h⟩ := bind_eq_ok h
    cases h
    exact (naming_nullTest _ (naming_checkedReference hsubject)).congr
      (by simp [Predicate.mentions, Predicate.nested, Mention.IsProper])
  | .like column pattern caseSensitive =>
    exact (naming_patternMatch h).congr (by simp [Predicate.mentions, Predicate.nested, Mention.IsProper])
  | .exists q =>
    obtain ⟨query, hquery, h⟩ := bind_eq_ok h
    cases h
    have hquery := (hn q (List.mem_singleton_self q)).tokens hquery
    exact (((naming_notBefore negated).after (.neutral_space rfl)).before hquery).congr
      (by simp [Predicate.mentions, Predicate.nested])
  | .group members =>
    obtain ⟨list, hlist, h⟩ := bind_eq_ok h
    cases h
    exact (naming_notBefore negated).before (Condition.naming_tokensEach hn hlist).1.parenthesized
  | .raw fragment =>
    obtain ⟨tokens, htokens, h⟩ := bind_eq_ok h
    cases h
    exact ((Fragment.naming_tokens htokens).negated negated).congr (by simp [Predicate.mentions, Predicate.nested])

/-- The conditions of a list with their connectors between them, and with one more in front. -/
theorem Condition.naming_tokensEach {list : List (Condition σ)} {emitted : List (Connector × List (Token Value))}
    (hn : ∀ q ∈ Condition.nestedList list, (f q).IsNaming p (N q))
    (h : Condition.tokensEach p (Condition.mapList f list) = .ok emitted) :
    Naming p (Proper p N (Condition.mentionsList list) (Condition.nestedList list)) (connect emitted) ∧
      Naming p (Proper p N (Condition.mentionsList list) (Condition.nestedList list))
        (emitted.flatMap fun (connector, tokens) => Token.spaced connector.keyword ++ tokens) := by
  match list with
  | [] =>
    cases h
    have hnil : Naming p (Proper p N [] []) ([] : List (Token Value)) := Naming.nil.congr (by simp)
    exact ⟨hnil, hnil⟩
  | condition :: rest =>
    rw [Condition.nestedList, List.forall_mem_append] at hn
    rw [Condition.mapList, Condition.tokensEach, Condition.isVacuous_map] at h
    split at h
    next hv =>
      have ih := Condition.naming_tokensEach hn.2 h
      rwa [Condition.mentionsList, Condition.nestedList, Condition.mentions_of_isVacuous hv,
        Condition.nested_of_isVacuous hv]
    next hv =>
      obtain ⟨tokens, htokens, h⟩ := bind_eq_ok h
      obtain ⟨more, hmore, h⟩ := bind_eq_ok h
      cases h
      have hconnector : ∀ connector : Connector, connector.keyword ≠ .as := by
        intro connector
        cases connector <;> decide
      have hfirst := Condition.naming_tokens hn.1 htokens
      have hrest := (Condition.naming_tokensEach hn.2 hmore).2
      have hall := (hfirst.append hrest).congr proper_append.symm
      rw [Condition.mentionsList, Condition.nestedList, List.flatMap_cons, List.append_assoc]
      exact ⟨hall, (Naming.spaced (hconnector _)).before hall⟩

end

theorem Condition.naming_listTokens {list : List (Condition σ)}
    (hn : ∀ q ∈ Condition.nestedList list, (f q).IsNaming p (N q))
    (h : Condition.listTokens p (Condition.mapList f list) = .ok ts) :
    Naming p (Proper p N (Condition.mentionsList list) (Condition.nestedList list)) ts := by
  obtain ⟨emitted, hemitted, rfl⟩ := map_eq_ok h
  exact (Condition.naming_tokensEach hn hemitted).1

/-! ## Emitters of terms and the select list -/

theorem Term.naming_tokens {place : NamePlace} {term : Term} (h : term.tokens p place = .ok ts) :
    Naming p (∀ m ∈ term.mentions, m.IsProper p) ts := by
  cases term with
  | column name => exact (naming_checkedReference h).congr (by simp [mentions, Mention.IsProper])
  | raw fragment => exact (Fragment.naming_tokens h).congr (by simp [mentions])

/-- A list of parts with commas between them. -/
theorem Naming.list {ι : Type} {emit : ι → Emission} {xs : List ι} {P : ι → Prop}
    (hemit : ∀ x ∈ xs, ∀ tokens, emit x = .ok tokens → Naming p (P x) tokens)
    (h : (xs.mapM emit).map Token.commaSeparated = .ok ts) : Naming p (∀ x ∈ xs, P x) ts := by
  obtain ⟨groups, hgroups, rfl⟩ := map_eq_ok h
  exact .commaSeparated (forall₂_of_mapM hgroups hemit)

theorem naming_orderingTokens {orders : List (Term × Direction)} (h : orderingTokens p orders = .ok ts) :
    Naming p (∀ order ∈ orders, ∀ m ∈ order.1.mentions, m.IsProper p) ts := by
  refine Naming.list (fun order _ tokens htokens => ?_) h
  obtain ⟨term, hterm, htokens⟩ := bind_eq_ok htokens
  cases htokens
  have hterm := Term.naming_tokens hterm
  split
  · exact hterm
  · exact hterm.after (.space_neutral rfl)

theorem naming_groupingTokens {groups : List Term} (h : groupingTokens p groups = .ok ts) :
    Naming p (∀ term ∈ groups, ∀ m ∈ term.mentions, m.IsProper p) ts :=
  .list (fun _ _ _ => Term.naming_tokens) h

theorem Selection.naming_tokens {item : Selection σ} (hn : ∀ q ∈ item.nested, (f q).IsNaming p (N q))
    (h : (item.map f).tokens p = .ok ts) : Naming p (Proper p N item.mentions item.nested) ts := by
  cases item with
  | column c =>
    obtain ⟨-, -, h⟩ := bind_eq_ok h
    cases h
    exact ((naming_reference _).1.append (naming_aliasTokens c.aliasName)).congr
      (by simp only [mentions, nested, proper_nil_right, List.forall_mem_cons, Mention.IsProper])
  | raw fragment => exact (Fragment.naming_tokens h).congr (by simp [mentions, nested])
  | aggregate function name aliasName =>
    obtain ⟨column, hcolumn, h⟩ := bind_eq_ok h
    cases h
    have hcolumn := (naming_checkedReference hcolumn).function function.sqlName
    exact (hcolumn.append (naming_aliasTokens aliasName)).congr
      (by simp only [mentions, nested, proper_nil_right, List.forall_mem_cons, Mention.IsProper])
  | subquery q aliasName =>
    obtain ⟨-, -, h⟩ := bind_eq_ok h
    obtain ⟨query, hquery, h⟩ := bind_eq_ok h
    cases h
    have hquery := (hn q (List.mem_singleton_self q)).tokens hquery
    exact (hquery.append (naming_asAlias aliasName)).congr
      (by simp [Proper, mentions, nested, Mention.IsProper, and_comm])

theorem naming_selectionTokens {items : List (Selection σ)}
    (hn : ∀ item ∈ items, ∀ q ∈ item.nested, (f q).IsNaming p (N q))
    (h : selectionTokens p (items.map (Selection.map f)) = .ok ts) :
    Naming p (Proper p N (items.flatMap Selection.mentions) (items.flatMap Selection.nested)) ts := by
  refine Naming.congr ?_ proper_flatMap.symm
  unfold selectionTokens at h
  split at h
  next hempty =>
    cases h
    obtain rfl : items = [] := by simpa using hempty
    exact (Naming.symbol .star).congr (by simp)
  next =>
    rw [List.mapM_map] at h
    exact .list (fun item hitem _ => Selection.naming_tokens (hn item hitem)) h

/-! ## Emitters of sources and joins -/

theorem Source.naming_tokens {place : NamePlace} {source : Source σ}
    (hn : ∀ q ∈ source.nested, (f q).IsNaming p (N q)) (h : (source.map f).tokens p place = .ok ts) :
    Naming p (Proper p N source.mentions source.nested) ts := by
  cases source with
  | table name aliasName =>
    obtain ⟨-, -, h⟩ := bind_eq_ok h
    cases h
    exact (naming_table (σ := σ) name aliasName).congr (by simp [nested])
  | subquery q aliasName =>
    obtain ⟨-, -, h⟩ := bind_eq_ok h
    obtain ⟨query, hquery, h⟩ := bind_eq_ok h
    cases h
    obtain ⟨inner, hinner, rfl⟩ := map_eq_ok hquery
    have hquery := (hn q (List.mem_singleton_self q) inner hinner).parenthesized
    exact (hquery.tableAlias Token.endsSource_parenthesized aliasName).congr
      (by simp [Proper, mentions, nested, Mention.IsProper, and_comm])
  | raw fragment => exact (Fragment.naming_tokens h).congr (by simp [mentions, nested])

theorem naming_fromTokens {source : Option (Source σ)}
    (hn : ∀ x ∈ source, ∀ q ∈ x.nested, (f q).IsNaming p (N q))
    (h : fromTokens p (source.map (Source.map f)) = .ok ts) :
    Naming p (Proper p N (source.toList.flatMap Source.mentions) (source.toList.flatMap Source.nested)) ts := by
  cases source with
  | none => cases h
  | some source =>
    obtain ⟨tokens, htokens, h⟩ := bind_eq_ok h
    cases h
    have hsource := Source.naming_tokens (hn source rfl) htokens
    exact ((Naming.spaced (by decide)).before hsource).congr (by simp)

theorem Join.naming_tokens {j : Join σ} (hn : ∀ q ∈ j.nested, (f q).IsNaming p (N q))
    (h : (j.map f).tokens p = .ok ts) : Naming p (Proper p N j.mentions j.nested) ts := by
  rw [Join.nested, List.forall_mem_append] at hn
  obtain ⟨⟨⟩, hcheck, h⟩ := bind_eq_ok h
  obtain ⟨source, hsource, h⟩ := bind_eq_ok h
  obtain ⟨conditions, hconditions, h⟩ := bind_eq_ok h
  cases h
  have hkind : Naming p True (.space :: j.kind.tokens : List (Token Value)) := by
    cases j.kind with
    | full => exact (Naming.space_neutral rfl).before (.space_neutral rfl)
    | inner | left | right | cross => exact .space_neutral rfl
  have hsource := Source.naming_tokens hn.1 hsource
  have hconditions : Naming p
      (Proper p N (Condition.mentionsList j.conditions) (Condition.nestedList j.conditions)) conditions := by
    unfold conditionTokens at hconditions
    split at hconditions
    next hcross =>
      cases hconditions
      have hnil := Join.conditions_of_check hcross hcheck
      rw [Join.conditions_map, List.map_eq_nil_iff] at hnil
      exact Naming.nil.congr (by simp [hnil, Condition.mentionsList, Condition.nestedList])
    next =>
      obtain ⟨tokens, htokens, h⟩ := bind_eq_ok hconditions
      split at h
      · cases h
      · cases h
        exact (Naming.spaced (by decide)).before (Condition.naming_listTokens hn.2 htokens)
  have hjoin := (hkind.after (.spaced (k := .join) (by decide))).before hsource
  exact (hjoin.append hconditions).congr proper_append.symm

end

/-! ## Emitters of selects -/

section

variable {t : Target} {f : σ → Nested} {N : σ → Prop} {C : Prop} {ts : List (Token Value)}

/-- Behind parentheses a space asks for no alias where an alias needs `AS`. -/
theorem Naming.parenthesized_space {p : Profile} (hp : p.tableAliasAs = true) (h : Naming p C ts) :
    Naming p C (Token.parenthesized ts ++ [.space]) := by
  intro before hbefore
  obtain ⟨hiff, hsettled⟩ := h.parenthesized before hbefore
  refine ⟨?_, ?_⟩
  · rw [Token.namedFrom_append, hiff, Token.namedFrom_cons, Token.alias?_of_settled hsettled]
    simp
  · simp [Token.parenthesized, Token.settled, hp]

/-- What stands between `SELECT` and the select list, with the spaces around it. -/
theorem naming_selectStart {p : Profile} {shape : Shape}
    (hshape : ∀ rows, shape = .top rows → p.tableAliasAs = true) (isDistinct : Bool) :
    Naming p True (.keyword .select :: (if isDistinct then [.space, .keyword .distinct] else [])
      ++ shape.topTokens ++ [.space]) := by
  obtain ⟨hwords, hspaced⟩ :
      Naming p True
        (.keyword .select :: (if isDistinct then [.space, .keyword .distinct] else []) : List (Token Value)) ∧
      Naming p True (.keyword .select :: (if isDistinct then [.space, .keyword .distinct] else [])
        ++ [.space] : List (Token Value)) := by
    cases isDistinct with
    | false => exact ⟨.neutral rfl, .neutral_space rfl⟩
    | true => exact ⟨(Naming.neutral rfl).before (.space_neutral rfl), (Naming.neutral rfl).before (.between rfl)⟩
  cases shape with
  | top rows =>
    have hrows := Naming.parenthesized_space (hshape rows rfl) (.value (.int (Page.bound rows)))
    have htop := hwords.before ((Naming.between (t := .keyword .top) rfl).before hrows)
    simpa [Shape.topTokens] using htop
  | plain | numbered | unordered => simpa [Shape.topTokens] using hspaced

theorem naming_numberingTokens (hrow : IsAlias t.options.rowNumberAlias) {orders : List (Term × Direction)}
    (h : numberingTokens t orders = .ok ts) :
    Naming t.profile (∀ order ∈ orders, ∀ m ∈ order.1.mentions, m.IsProper t.profile) ts := by
  obtain ⟨order, horder, h⟩ := bind_eq_ok h
  cases h
  have horder : Naming t.profile (∀ order ∈ orders, ∀ m ∈ order.1.mentions, m.IsProper t.profile)
      (if orders.isEmpty then Token.parenthesized [.keyword .select, .space, .litInt 0] else order) := by
    split
    next hempty =>
      have hany : Naming t.profile True ([.keyword .select, .space, .litInt 0] : List (Token Value)) :=
        (Naming.neutral_space rfl).before (.neutral rfl)
      exact hany.parenthesized.congr (by simp [List.isEmpty_iff.1 hempty])
    next => exact naming_orderingTokens horder
  have hcall : Naming t.profile True (.function "ROW_NUMBER" :: Token.parenthesized [] : List (Token Value)) :=
    Naming.nil.function "ROW_NUMBER"
  have hwindow := ((Naming.neutral_space (t := .keyword .orderBy) rfl).before horder).parenthesized
  have halias : Naming t.profile True
      (aliasTokens t.profile (some t.options.rowNumberAlias) : List (Token Value)) :=
    (naming_asAlias _).congr (iff_true_intro hrow)
  exact ((hcall.after (.spaced (by decide))).before hwindow).after halias

theorem Shape.naming_numberTokens (hrow : IsAlias t.options.rowNumberAlias) {orders : List (Term × Direction)}
    {shape : Shape} (h : shape.numberTokens t orders = .ok ts) :
    Naming t.profile (shape = .numbered → ∀ order ∈ orders, ∀ m ∈ order.1.mentions, m.IsProper t.profile) ts := by
  cases shape with
  | numbered =>
    obtain ⟨column, hcolumn, h⟩ := bind_eq_ok h
    cases h
    exact (Naming.comma.before (naming_numberingTokens hrow hcolumn)).congr ⟨fun h _ => h, fun h => h rfl⟩
  | plain | top rows | unordered =>
    cases h
    exact Naming.nil.congr (by simp)

theorem Shape.naming_orderTokens {p : Profile} {orders : List (Term × Direction)} {shape : Shape}
    (h : shape.orderTokens p orders = .ok ts) :
    Naming p (shape.isOrdering = true → ∀ order ∈ orders, ∀ m ∈ order.1.mentions, m.IsProper p) ts := by
  cases shape with
  | plain | top rows => exact (naming_orderingTokens h).congr ⟨fun h _ => h, fun h => h rfl⟩
  | numbered | unordered =>
    cases h
    exact Naming.nil.congr (by simp [isOrdering])

theorem Shape.takesOrder_iff {shape : Shape} {P : Prop} :
    (shape.takesOrder = true → P) ↔ (shape = .numbered → P) ∧ (shape.isOrdering = true → P) := by
  cases shape <;> simp [takesOrder, isOrdering]

theorem naming_selectTokens (hrow : IsAlias t.options.rowNumberAlias) {s : Sections σ} {shape : Shape}
    (hn : ∀ q ∈ s.selectNested, (f q).IsNaming t.profile (N q))
    (h : selectTokens t (s.map f) shape = .ok ts)
    (hshape : ∀ rows, shape = .top rows → t.profile.tableAliasAs = true) :
    Naming t.profile (Proper t.profile N s.selectMentions s.selectNested ∧ (shape.takesOrder = true →
      ∀ order ∈ s.orders, ∀ m ∈ order.1.mentions, m.IsProper t.profile)) ts := by
  obtain ⟨hnitems, hnsource, hnjoins, hnfilters, hnhavings⟩ := Sections.forall_mem_selectNested.1 hn
  obtain ⟨items, hitems, h⟩ := bind_eq_ok h
  obtain ⟨number, hnumber, h⟩ := bind_eq_ok h
  obtain ⟨source, hsource, h⟩ := bind_eq_ok h
  obtain ⟨joins, hjoins, h⟩ := bind_eq_ok h
  obtain ⟨filter, hfilter, h⟩ := bind_eq_ok h
  obtain ⟨groups, hgroups, h⟩ := bind_eq_ok h
  obtain ⟨having, hhaving, h⟩ := bind_eq_ok h
  obtain ⟨order, horder, h⟩ := bind_eq_ok h
  cases h
  have hnumber := Shape.naming_numberTokens hrow hnumber
  have hjoins : Naming t.profile
      (Proper t.profile N (s.joins.flatMap Join.mentions) (s.joins.flatMap Join.nested)) joins.flatten := by
    rw [Sections.map_joins, List.mapM_map] at hjoins
    refine Naming.congr (.flatten (forall₂_of_mapM hjoins fun j hj _ => Join.naming_tokens (hnjoins j hj))) ?_
    exact proper_flatMap.symm
  have hstart := naming_selectStart hshape s.distinct
  have hhead := ((((hstart.before (naming_selectionTokens hnitems hitems)).append hnumber).append
    (naming_fromTokens hnsource hsource)).append hjoins)
  have hfilter := (Condition.naming_listTokens hnfilters hfilter).sectionOf (k := .where_) (by decide)
  have hgroups := (naming_groupingTokens hgroups).sectionOf (k := .groupBy) (by decide)
  have hhaving := (Condition.naming_listTokens hnhavings hhaving).sectionOf (k := .having) (by decide)
  have horder := (Shape.naming_orderTokens horder).sectionOf (k := .orderBy) (by decide)
  refine ((((hhead.append hfilter).append hgroups).append hhaving).append horder).congr ?_
  rw [Shape.takesOrder_iff]
  simp only [Proper, Sections.selectMentions, Sections.selectNested, List.forall_mem_append,
    List.forall_mem_flatMap]
  tauto

/-! ## Emitters of pages -/

theorem naming_selectAllFrom {p : Profile} (h : Naming p C ts) : Naming p C (selectAllFrom ts) := by
  have hstart : Naming p True ([.keyword .select, .space, .symbol .star] : List (Token Value)) :=
    (Naming.neutral_space rfl).before (.symbol .star)
  exact (hstart.after (.spaced (k := .from) (by decide))).before h.parenthesized

theorem endsSource_selectAllFrom : Token.EndsSource (selectAllFrom ts) :=
  Token.endsSource_parenthesized.after _

theorem naming_pageTest {p : Profile} {ordinal : Token Value} (hordinal : Naming p True [ordinal]) (page : Page) :
    Naming p True (pageTest ordinal page) := by
  have htest : ∀ (op : Comparison) (bound : Int64), Naming p True (ordinalTest ordinal op.symbol bound) := by
    intro op bound
    have hop : (.symbol op.symbol : Token Value).isNeutral = true := by cases op <;> rfl
    exact hordinal.before ((Naming.between hop).before (.value _))
  obtain ⟨limit, offset⟩ := page
  cases offset with
  | none =>
    cases limit with
    | none => exact .nil
    | some limit => exact htest .le _
  | some offset =>
    cases limit with
    | none => exact htest .ge _
    | some limit => exact ((htest .ge _).after (.spaced (by decide))).before (htest .lt _)

theorem naming_limitTokens {p : Profile} (page : Page) : Naming p True (limitTokens p page) := by
  have hlimit : Naming p True (Token.spaced .limit : List (Token Value)) := .spaced (by decide)
  have hoffset : Naming p True (Token.spaced .offset : List (Token Value)) := .spaced (by decide)
  refine Naming.before ?_ ?_
  · split
    · exact hlimit.before (.value _)
    · exact hlimit.before (.raw _)
    · exact .nil
  · split
    · exact hoffset.before (.value _)
    · exact .nil

/-- An alias where it is used as a name. -/
theorem naming_ordinal {p : Profile} {name : String} (h : IsAlias name) :
    Naming p True [(p.aliasToken name : Token Value)] :=
  (Naming.segment _).congr (iff_true_intro (isName_iff.1 h.notBlank))

theorem naming_rowNum {p : Profile} : Naming p True ([rowNumToken] : List (Token Value)) :=
  .raw _

theorem isAlias_distinctTable : IsAlias distinctTable := by
  decide

theorem Sections.proper_pagedMentions {p : Profile} {s : Sections σ} :
    Proper p N (s.pagedMentions p) s.selectNested ↔ Proper p N s.selectMentions s.selectNested ∧
      ∀ order ∈ s.orders, ∀ m ∈ (s.orderTerm p order.1).mentions, m.IsProper p := by
  rw [Proper, pagedMentions, List.forall_mem_append, List.forall_mem_flatMap, and_right_comm]
  exact Iff.rfl

theorem naming_orderedSelect (hrow : IsAlias t.options.rowNumberAlias) {s : Sections σ} {shape : Shape}
    (hn : ∀ q ∈ s.selectNested, (f q).IsNaming t.profile (N q))
    (h : selectTokens t (s.map f) shape = .ok ts) (htakes : shape.takesOrder = true)
    (hshape : ∀ rows, shape = .top rows → t.profile.tableAliasAs = true)
    (hplain : s.distinct = false ∨ (Plan.ofPage t.profile.paging s.page).isRowNumber = false) :
    Naming t.profile (Proper t.profile N (s.pagedMentions t.profile) s.selectNested) ts := by
  have hterm : ∀ term, s.orderTerm t.profile term = term := by
    intro term
    rw [Sections.orderTerm, if_neg]
    rcases hplain with h | h <;> simp [h]
  refine (naming_selectTokens hrow hn h hshape).congr ?_
  rw [Sections.proper_pagedMentions, forall_prop_of_true htakes]
  simp only [hterm]

theorem naming_numberedRows (hrow : IsAlias t.options.rowNumberAlias) {s : Sections σ} {page : Page}
    (hn : ∀ q ∈ s.selectNested, (f q).IsNaming t.profile (N q))
    (hplan : Plan.ofPage t.profile.paging s.page = .rowNumber page) (h : numberedRows t (s.map f) = .ok ts) :
    Naming t.profile (Proper t.profile N (s.pagedMentions t.profile) s.selectNested) ts := by
  unfold numberedRows at h
  rw [Sections.map_distinct] at h
  split at h
  next hdistinct =>
    obtain ⟨number, hnumber, h⟩ := bind_eq_ok h
    obtain ⟨inner, hinner, h⟩ := bind_eq_ok h
    cases h
    have hterm : ∀ term, s.orderTerm t.profile term = term.output t.profile s.items := by
      intro term
      rw [Sections.orderTerm, hplan, hdistinct]
      rfl
    have hnumber : Naming t.profile
        (∀ order ∈ s.orders, ∀ m ∈ (s.orderTerm t.profile order.1).mentions, m.IsProper t.profile) number := by
      refine (naming_numberingTokens hrow hnumber).congr ?_
      simp only [List.forall_mem_map, Sections.map_orders, Sections.map_items, Term.output_map, hterm]
    have hinner : Naming t.profile (Proper t.profile N s.selectMentions s.selectNested) inner :=
      (naming_selectTokens hrow hn hinner (by simp)).congr (and_iff_left (by simp [Shape.takesOrder]))
    have hstart : Naming t.profile True
        ([.keyword .select, .space, .symbol .star, .symbol .comma, .space] : List (Token Value)) :=
      (Naming.neutral_space rfl).before ((Naming.symbol .star).before .comma)
    have hfront := (hstart.before hnumber).after (.spaced (k := .from) (by decide))
    have hrows := (hfront.append hinner.parenthesized).tableAlias
      (Token.endsSource_parenthesized.after _) distinctTable
    refine hrows.congr ?_
    rw [Sections.proper_pagedMentions, and_iff_left isAlias_distinctTable, and_comm]
  next hdistinct =>
    exact naming_orderedSelect hrow hn h rfl (by simp) (.inl (by simpa using hdistinct))

theorem naming_pagedTokens (hrow : IsAlias t.options.rowNumberAlias) (hwrapper : IsAlias t.options.wrapperAlias)
    (htop : t.profile.paging = .topCount → t.profile.tableAliasAs = true) {s : Sections σ} {outermost : Bool}
    (hn : ∀ q ∈ s.selectNested, (f q).IsNaming t.profile (N q))
    (h : pagedTokens t (s.map f) outermost = .ok ts) :
    Naming t.profile (Proper t.profile N (s.pagedMentions t.profile) s.selectNested) ts := by
  have hordinal : Naming t.profile True [(t.profile.aliasToken t.options.rowNumberAlias : Token Value)] :=
    naming_ordinal hrow
  have hwhere : Naming t.profile True (Token.spaced .where_ : List (Token Value)) := .spaced (by decide)
  unfold pagedTokens at h
  rw [Sections.map_page] at h
  cases hplan : Plan.ofPage t.profile.paging s.page with
  | whole =>
    rw [hplan] at h
    exact naming_orderedSelect hrow hn h rfl nofun (.inr (by rw [hplan]; rfl))
  | limitOffset page =>
    rw [hplan] at h
    obtain ⟨tokens, htokens, rfl⟩ := map_eq_ok h
    exact (naming_orderedSelect hrow hn htokens rfl nofun (.inr (by rw [hplan]; rfl))).after (naming_limitTokens page)
  | top rows =>
    rw [hplan] at h
    have hpaging : t.profile.paging = .topCount := by
      unfold Plan.ofPage at hplan
      grind
    exact naming_orderedSelect hrow hn h rfl (fun _ _ => htop hpaging) (.inr (by rw [hplan]; rfl))
  | rowNumber page =>
    rw [hplan] at h
    obtain ⟨inner, hinner, h⟩ := bind_eq_ok h
    have hrows := (naming_selectAllFrom (naming_numberedRows hrow hn hplan hinner)).tableAlias
      endsSource_selectAllFrom t.options.wrapperAlias
    have hpaged := ((hrows.congr (and_iff_left hwrapper)).after hwhere).after (naming_pageTest hordinal page)
    cases h
    refine hpaged.after ?_
    split
    · exact (Naming.spaced (by decide)).before hordinal
    · exact .nil
  | rowNum page =>
    rw [hplan] at h
    obtain ⟨inner, hinner, h⟩ := bind_eq_ok h
    have hinner := naming_orderedSelect hrow hn hinner rfl nofun (.inr (by rw [hplan]; rfl))
    split at h
    · cases h
      exact ((naming_selectAllFrom hinner).after hwhere).after (naming_pageTest naming_rowNum page)
    · cases h
      have hwrapped := naming_ordinal (p := t.profile) hwrapper
      have hcolumns : Naming t.profile True ([.keyword .select, .space, t.profile.aliasToken t.options.wrapperAlias,
          .symbol .dot, .symbol .star, .symbol .comma, .space, rowNumToken] : List (Token Value)) :=
        (Naming.neutral_space rfl).before (hwrapped.before ((Naming.symbol .dot).before
          ((Naming.symbol .star).before (Naming.comma.before naming_rowNum))))
      have hlist := hcolumns.before ((naming_asAlias t.options.rowNumberAlias).congr (iff_true_intro hrow))
      have hfront := (hlist.after (.spaced (k := .from) (by decide))).before hinner.parenthesized
      have hnumbered := hfront.tableAlias (Token.endsSource_parenthesized.after _) t.options.wrapperAlias
      have hrows := naming_selectAllFrom (hnumbered.congr (and_iff_left hwrapper))
      simpa [rowNumRows] using (hrows.after hwhere).after (naming_pageTest hordinal page)

/-! ## Emitters of statements -/

theorem naming_withTokens {p : Profile} {ctes : List (String × σ)} {head : List (Token Value)} {first : Token Value}
    (hn : ∀ cte ∈ ctes, (f cte.2).IsNaming p (N cte.2)) (h : withTokens p (ctes.map (Prod.map id f)) = .ok ts)
    (hfirst : first.isNeutral = true) (hhead : Naming p C (first :: head)) :
    Naming p ((∀ cte ∈ ctes, IsAlias cte.1 ∧ N cte.2) ∧ C) (ts ++ first :: head) := by
  unfold withTokens at h
  split at h
  next hempty =>
    cases h
    obtain rfl : ctes = [] := by simpa using hempty
    exact hhead.congr (by simp)
  next =>
    obtain ⟨list, hlist, h⟩ := bind_eq_ok h
    cases h
    have hcte : ∀ cte ∈ ctes, ∀ tokens, cteTokens p (Prod.map id f cte) = .ok tokens →
        Naming p (IsAlias cte.1 ∧ N cte.2) tokens := by
      intro cte hcte tokens h
      obtain ⟨-, -, h⟩ := bind_eq_ok h
      obtain ⟨query, hquery, h⟩ := bind_eq_ok h
      cases h
      obtain ⟨inner, hinner, rfl⟩ := map_eq_ok hquery
      have hname : (p.aliasToken cte.1 : Token Value).isName = true := isName_segmentToken
      exact (Naming.cte (ne_of_isName hname rfl) (ne_of_isName hname rfl) (hn cte hcte inner hinner)).congr
        (and_congr_left fun _ => aliasToken_proper_iff)
    rw [List.mapM_map] at hlist
    have hctes := (Naming.neutral_space (t := .keyword .with_) rfl).before
      (.commaSeparated (forall₂_of_mapM hlist hcte))
    simpa using hctes.append (hhead.space_cons hfirst)

theorem naming_operandTokens {p : Profile} {isDelimited : Bool} {a : List (Token Value)} (ha : Naming p C a)
    (h : operandTokens p isDelimited a = .ok ts) : Naming p C ts := by
  obtain ⟨-, rfl⟩ | ⟨-, -, rfl⟩ := operandTokens_cases h
  · exact ha
  · exact ha.parenthesized

theorem Arm.naming_tokens {p : Profile} {arm : Arm σ} (hn : (f arm.operand).IsNaming p C)
    (h : (arm.map f).tokens p = .ok ts) : Naming p C ts := by
  obtain ⟨keyword, hkeyword, h⟩ := bind_eq_ok h
  obtain ⟨statement, hstatement, h⟩ := bind_eq_ok h
  obtain ⟨operand, hoperand, h⟩ := bind_eq_ok h
  obtain rfl := SetOperator.keyword_eq hkeyword
  cases h
  have hoperand := naming_operandTokens (hn statement hstatement) hoperand
  have hkeyword : (.keyword arm.operator.sectionKeyword : Token Value).isNeutral = true := by
    cases arm.operator <;> rfl
  have hoperator : Naming p True ([.space, .keyword arm.operator.sectionKeyword]
      ++ (if arm.all then [.space, .keyword .all] else []) ++ [.space] : List (Token Value)) := by
    cases arm.all with
    | false => exact .between hkeyword
    | true => exact (Naming.space_neutral hkeyword).before (.between (t := .keyword .all) rfl)
  exact hoperator.before hoperand

theorem Sections.proper_mentions {p : Profile} {s : Sections σ} :
    Proper p N (s.mentions p) s.nested ↔ (∀ cte ∈ s.ctes, IsAlias cte.1 ∧ N cte.2) ∧
      Proper p N (s.pagedMentions p) s.selectNested ∧ ∀ arm ∈ s.arms, N arm.operand := by
  simp only [Proper, mentions, Sections.forall_mem_nested, List.forall_mem_append, List.forall_mem_map,
    Mention.IsProper, forall₂_and]
  tauto

theorem naming_sectionTokens (hrow : IsAlias t.options.rowNumberAlias) (hwrapper : IsAlias t.options.wrapperAlias)
    (htop : t.profile.paging = .topCount → t.profile.tableAliasAs = true) {s : Sections σ} {outermost : Bool}
    (hn : ∀ q ∈ s.nested, (f q).IsNaming t.profile (N q)) (h : sectionTokens t (s.map f) outermost = .ok ts) :
    Naming t.profile (Proper t.profile N (s.mentions t.profile) s.nested) ts := by
  obtain ⟨hnctes, hnselect, hnarms⟩ := Sections.forall_mem_nested.1 hn
  obtain ⟨ctes, hctes, h⟩ := bind_eq_ok h
  rw [Sections.proper_mentions]
  split at h
  next hempty =>
    obtain ⟨head, hhead, h⟩ := bind_eq_ok h
    cases h
    have harms : s.arms = [] := by simpa using hempty
    have hnaming := naming_pagedTokens hrow hwrapper htop hnselect hhead
    obtain ⟨rest, rfl⟩ := pagedTokens_eq_cons hhead
    exact (naming_withTokens hnctes hctes rfl hnaming).congr (by simp [harms])
  next =>
    obtain ⟨paged, hpaged, h⟩ := bind_eq_ok h
    obtain ⟨head, hhead, h⟩ := bind_eq_ok h
    obtain ⟨arms, harms, h⟩ := bind_eq_ok h
    cases h
    have hnaming := naming_operandTokens (naming_pagedTokens hrow hwrapper htop hnselect hpaged) hhead
    obtain ⟨first, rest, rfl, hfirst⟩ : ∃ first rest, head = first :: rest ∧ first.isNeutral = true := by
      obtain ⟨rest, rfl⟩ := pagedTokens_eq_cons hpaged
      obtain ⟨-, rfl⟩ | ⟨-, -, rfl⟩ := operandTokens_cases hhead <;> exact ⟨_, _, rfl, rfl⟩
    rw [Sections.map_arms, List.mapM_map] at harms
    have harms : Naming t.profile (∀ arm ∈ s.arms, N arm.operand) arms.flatten :=
      .flatten (forall₂_of_mapM harms fun arm harm _ => Arm.naming_tokens (hnarms arm harm))
    simpa using naming_withTokens hnctes hctes hfirst (hnaming.append harms)

end

/-! ## Queries -/

namespace Query

/-- The names that are mentioned at a level of a query are proper. -/
def HasProperNames (p : Profile) (q : Query) : Prop :=
  ∀ s, q.sections = .ok s → ∀ m ∈ s.mentions p, m.IsProper p

section

variable {t : Target} {q : Query} {ts : List (Token Value)}

theorem naming_tokensAt (hrow : IsAlias t.options.rowNumberAlias) (hwrapper : IsAlias t.options.wrapperAlias)
    (htop : t.profile.paging = .topCount → t.profile.tableAliasAs = true) {outermost : Bool}
    (h : q.tokensAt t outermost = .ok ts) : Naming t.profile (q.AtEveryLevel (HasProperNames t.profile)) ts := by
  induction q using induction_inside generalizing ts outermost with
  | step q ih =>
    rw [tokensAt_eq] at h
    obtain ⟨s, hs, h⟩ := bind_eq_ok h
    rw [inside_eq hs] at ih
    have hn : ∀ inner ∈ s.nested,
        (inner.nested t).IsNaming t.profile (inner.AtEveryLevel (HasProperNames t.profile)) := by
      intro inner hinner tokens htokens
      have htokens : inner.tokensAt t false = .ok tokens := htokens
      exact ih inner hinner htokens
    refine (naming_sectionTokens hrow hwrapper htop hn h).congr ?_
    rw [atEveryLevel_iff, inside_eq hs]
    refine and_congr_left fun _ => ⟨fun hnames s' hs' => ?_, fun hnames => hnames s hs⟩
    cases hs.symm.trans hs'
    exact hnames

end

end Query

namespace Compiler

/-- No segment of a name in a compiled statement is empty and every alias in it is a quoted identifier exactly
when at every level of the query no name that is referred to has a blank segment, and no name that is given
is blank or a star. -/
theorem wellNamed_compile {c : Compiler} {q : Query} {r : Compiled} (hrow : IsAlias c.options.rowNumberAlias)
    (hwrapper : IsAlias c.options.wrapperAlias) (h : c.compile q = .ok r) :
    Token.WellNamed c.dialect.profile r.tokens ↔ q.AtEveryLevel (Query.HasProperNames c.dialect.profile) := by
  obtain ⟨tokens, htokens, -, rfl⟩ := compile_eq_ok_iff.1 h
  have htokens : q.tokensAt c.target true = .ok tokens := htokens
  have htop : c.target.profile.paging = .topCount → c.target.profile.tableAliasAs = true := by
    show c.dialect.profile.paging = .topCount → c.dialect.profile.tableAliasAs = true
    cases c.dialect <;> decide
  rw [Token.wellNamed_renumber]
  exact (Query.naming_tokensAt hrow hwrapper htop htokens).wellNamed_iff

/-- Totals of recent orders, with names in all places. -/
def namedTotals : Query :=
  ⟨[.cte "recent" ⟨[.from (.table "shop.orders as o" none)]⟩, .aggregate .sum "r.total" (some "sum of all"),
    .from (.table "recent" (some "r")), .offset 5]⟩

theorem wellNamed_compile_namedTotals :
    ∃ r, ({ dialect := .oracle } : Compiler).compile namedTotals = .ok r ∧
      Token.aliases Dialect.oracle.profile r.tokens = [.ident "recent", .ident "o", .ident "row_num",
        .ident "sum of all", .ident "r", .ident "results_wrapper"] ∧
      Token.WellNamed Dialect.oracle.profile r.tokens ∧
      namedTotals.AtEveryLevel (Query.HasProperNames Dialect.oracle.profile) := by
  obtain ⟨r, hr, haliases, hnamed⟩ : ∃ r, ({ dialect := .oracle } : Compiler).compile namedTotals = .ok r ∧
      Token.aliases Dialect.oracle.profile r.tokens = [.ident "recent", .ident "o", .ident "row_num",
        .ident "sum of all", .ident "r", .ident "results_wrapper"] ∧
      Token.WellNamed Dialect.oracle.profile r.tokens := ⟨_, rfl, by decide, by decide⟩
  exact ⟨r, hr, haliases, hnamed, (wellNamed_compile (by decide) (by decide) hr).1 hnamed⟩

/-- The alias of a column may be blank, and it may be a star. -/
theorem not_wellNamed_emptyAlias :
    (∃ r, ({ dialect := .postgres } : Compiler).compile
        ⟨[.from (.table "t" none), .column { name := "id", aliasName := some "" }]⟩ = .ok r ∧
      .ident "" ∈ r.tokens) ∧
    ∃ r, ({ dialect := .postgres } : Compiler).compile
        ⟨[.from (.table "t" none), .column { name := "id", aliasName := some "*" }]⟩ = .ok r ∧
      Token.aliases Dialect.postgres.profile r.tokens = [.symbol .star] := by
  exact ⟨⟨_, rfl, by decide⟩, ⟨_, rfl, by decide⟩⟩

end Compiler

end QueryCompiler
