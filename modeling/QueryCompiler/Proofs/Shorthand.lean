-- SUMMARY: A shorthand and the columns that it spells are compiled alike, wherever they stand in a query.
import QueryCompiler.Proofs.Grammar
import QueryCompiler.Proofs.Rearrangement
import QueryCompiler.Proofs.Separators

/-!
# Shorthands

A shorthand gives columns with a source, and the same columns spelled out one by one
have the source and the dot in their names. The columns differ, but not in what
is seen of them: the name with its source in front, the alias, and the last segment,
by which a column is known outside of the rows that it is in. The main result
replaces shorthands by the columns they spell, at any depth of a query.
-/

namespace QueryCompiler

/-! ## Separators in qualified names -/

namespace InlineAlias

/-- A separator at the start of a text does not reach over a dot. -/
theorem afterSeparator?_append_dot {text rest : List Char} (hne : text ≠ []) (h : HasNoSeparator text) :
    afterSeparator? (text ++ '.' :: rest) = none := by
  have hdot : Text.isBlank '.' = false := by decide
  have hhead : startsBlank (text ++ '.' :: rest) = startsBlank text := by
    cases text with
    | nil => exact absurd rfl hne
    | cons => rfl
  rw [afterSeparator?, hhead]
  split
  case isFalse => rfl
  case isTrue hstart =>
    rw [Text.trimStart_append_cons hdot]
    -- The separator would have the dot in it, or it would stand in the text.
    rcases htrim : Text.trimStart text with _ | ⟨a, _ | ⟨s, _ | ⟨behind, more⟩⟩⟩
    · cases rest <;> rfl
    · simp [isLetterS]
    · simp [startsBlank, hdot]
    · obtain ⟨front, before, hbefore, htext⟩ := exists_blank_before hstart htrim
      refine if_neg fun hsep => ?_
      simp only [Bool.and_eq_true] at hsep
      refine h before a s behind hbefore hsep.1.1 hsep.1.2 hsep.2 ⟨front, more, ?_⟩
      rw [htext]
      simp

/-- Behind a text without a separator and a dot, the first separator is the one of the rest. -/
theorem cut?_append_dot {text rest : List Char} (h : HasNoSeparator text) :
    cut? (text ++ '.' :: rest) = (cut? rest).map fun cut => (text ++ '.' :: cut.1, cut.2) := by
  induction text with
  | nil => rfl
  | cons c text ih =>
    have hnone : afterSeparator? (c :: (text ++ '.' :: rest)) = none :=
      afterSeparator?_append_dot (List.cons_ne_nil c text) h
    rw [List.cons_append, cut?_cons hnone, ih (h.of_infix (List.suffix_cons c text).isInfix), Option.map_map]
    rfl

/-- The alias of a qualified name is the alias of the name. -/
theorem split_append_dot {text entry : List Char} (htext : Text.trim text = text) (hne : text ≠ [])
    (h : HasNoSeparator text) (hentry : Text.trim entry = entry) (hentry' : entry ≠ []) :
    split (text ++ '.' :: entry) = (text ++ '.' :: (split entry).1, (split entry).2) := by
  rw [split_eq, split_eq, Text.trim_append_cons '.' htext hne hentry hentry', hentry, cut?_append_dot h]
  cases cut? entry <;> rfl

end InlineAlias

/-! ## Columns that are seen alike -/

variable {σ τ : Type} {p : Profile}

theorem map_eq_of_forall₂ {α β : Type} {R : α → α → Prop} {f : α → β} {xs ys : List α} (h : List.Forall₂ R xs ys)
    (hf : ∀ x y, R x y → f x = f y) : xs.map f = ys.map f := by
  rw [← List.forall₂_eq_eq_eq, List.forall₂_map_left_iff, List.forall₂_map_right_iff]
  exact h.imp hf

theorem Profile.baseName_append_dot (hp : p.quotes.OfNames) {source : List Char} (hsource : p.quotes.Closes source)
    (name : List Char) : p.baseName (String.ofList (source ++ '.' :: name)) = p.baseName (String.ofList name) := by
  rw [Profile.baseName_eq, Profile.baseName_eq, String.toList_ofList, String.toList_ofList,
    QuotePair.lastPart_append_dot hp hsource]

/-- Columns with the same tokens that are also known by the same names from outside. -/
structure Column.SeenAlike (p : Profile) (c c' : Column) : Prop where
  qualifiedName : c.qualifiedName = c'.qualifiedName
  aliasName : c.aliasName = c'.aliasName
  isVoid : Text.isVoid c.name = Text.isVoid c'.name
  baseName : p.baseName c.name = p.baseName c'.name

inductive Selection.SeenAlike (p : Profile) : Selection σ → Selection σ → Prop where
  | same (item : Selection σ) : SeenAlike p item item
  | column {c c' : Column} (h : c.SeenAlike p c') : SeenAlike p (.column c) (.column c')

namespace Selection.SeenAlike

theorem map (f : σ → τ) {item item' : Selection σ} (h : item.SeenAlike p item') :
    (item.map f).SeenAlike p (item'.map f) := by
  cases h with
  | same item => exact .same (item.map f)
  | column h => exact .column h

theorem outputName?_eq {item item' : Selection σ} (h : item.SeenAlike p item') (name : String) :
    item.outputName? p name = item'.outputName? p name := by
  cases h with
  | same => rfl
  | column h => rw [outputName?, outputName?, h.qualifiedName, h.aliasName, h.baseName]

theorem tokens_eq {item item' : Selection Nested} (h : item.SeenAlike p item') : item.tokens p = item'.tokens p := by
  cases h with
  | same => rfl
  | column h => rw [Selection.tokens, Selection.tokens, checkName, checkName, h.qualifiedName, h.aliasName, h.isVoid]

end Selection.SeenAlike

/-! ## Sections -/

section

variable {t : Target} {items items' : List (Selection Nested)}

theorem selectionTokens_eq (h : List.Forall₂ (Selection.SeenAlike p) items items') :
    selectionTokens p items = selectionTokens p items' := by
  have hempty : items.isEmpty = items'.isEmpty := by
    cases h <;> rfl
  have htokens := congrArg (List.mapM id) (map_eq_of_forall₂ h fun _ _ h => h.tokens_eq)
  rw [List.mapM_map, List.mapM_map, Function.id_comp] at htokens
  rw [selectionTokens, selectionTokens, hempty, htokens]

theorem Term.output_eq (h : List.Forall₂ (Selection.SeenAlike p) items items') (term : Term) :
    term.output p items = term.output p items' := by
  cases term with
  | raw => rfl
  | column name =>
    have hnames := congrArg (List.findSome? id) (map_eq_of_forall₂ h fun _ _ h => h.outputName?_eq name)
    rw [List.findSome?_map, List.findSome?_map, Function.id_comp] at hnames
    rw [Term.output, Term.output, outputName, outputName, hnames]

/-- Select lists whose entries are seen alike are emitted alike, and so is an order that refers to them. -/
theorem sectionTokens_eq {s : Sections Nested} (h : List.Forall₂ (Selection.SeenAlike t.profile) s.items items)
    (outermost : Bool) : sectionTokens t s outermost = sectionTokens t { s with items } outermost := by
  have hselect (shape : Shape) : selectTokens t s shape = selectTokens t { s with items } shape := by
    rw [selectTokens, selectTokens, selectionTokens_eq h]
  have hpaged (outermost : Bool) : pagedTokens t s outermost = pagedTokens t { s with items } outermost := by
    simp only [pagedTokens, rowNumberPage, rowNumPage, numberedRows, numberedDistinct, hselect, Term.output_eq h]
  simp only [sectionTokens, hpaged]
  rfl

end

theorem Selection.ofClauses_append (a b : Clauses σ) :
    ofClauses (a ++ b) = (ofClauses a >>= fun items => (ofClauses b).map (items ++ ·)) := by
  rw [ofClauses, ofClauses, ofClauses, List.mapM_append]
  cases a.mapM ofClause with
  | error e => rfl
  | ok items =>
    cases b.mapM ofClause with
    | error e => rfl
    | ok items' => exact congrArg Except.ok List.flatten_append

/-- Column specifications are seen only in the select list. -/
theorem Sections.ofItems_append_select {specs : Clauses σ} (hspecs : ∀ clause ∈ specs, ∃ spec, clause = .select spec)
    (items : List (Selection σ)) (before behind : Clauses σ) :
    ofItems items (before ++ specs ++ behind) = ofItems items (before ++ behind) := by
  have hview {α : Type} (view : Clause σ → Option α)
      (hselect : ∀ spec, view (.select spec) = none := by intro spec; rfl) :
      (before ++ specs ++ behind).filterMap view = (before ++ behind).filterMap view := by
    have hnone : specs.filterMap view = [] := by
      refine List.filterMap_eq_nil_iff.2 fun clause hclause => ?_
      obtain ⟨spec, rfl⟩ := hspecs clause hclause
      exact hselect spec
    rw [List.filterMap_append, List.filterMap_append, List.filterMap_append, hnone, List.append_nil]
  have hdistinct : (before ++ specs ++ behind).any Clause.isDistinct = (before ++ behind).any Clause.isDistinct := by
    have hfalse : specs.any Clause.isDistinct = false := by
      refine List.any_eq_false.2 fun clause hclause => ?_
      obtain ⟨spec, rfl⟩ := hspecs clause hclause
      exact Bool.false_ne_true
    rw [List.any_append, List.any_append, List.any_append, hfalse, Bool.or_false]
  simp only [ofItems, Clauses.isDistinct, Clauses.orders, Clauses.page, Clauses.limit, Clauses.offset, Clauses.source,
    hdistinct, hview Clause.cte?, hview Clause.source?, hview Clause.join?, hview Clause.filter?, hview Clause.group?,
    hview Clause.having?, hview Clause.order?, hview Clause.limit?, hview Clause.offset?, hview Arm.ofClause?]

/-! ## Shorthands and what they spell -/

namespace Specification

/-- A source that stays apart from the name behind it, and from its alias. -/
structure IsSource (q : QuotePair) (source : List Char) : Prop where
  trim_eq : Text.trim source = source
  ne_nil : source ≠ []
  notRaw : ¬rawMark <+: source
  notBrace : hasBrace source = false
  hasNoSeparator : InlineAlias.HasNoSeparator source
  closes : q.Closes source

/-- The shorthand of a source. -/
def shorthand (source : List Char) (entries : List (List Char)) : Clause σ :=
  .select (String.ofList (blockText source entries))

/-- A column with its source written in front. -/
def qualified (source entry : List Char) : List Char :=
  source ++ '.' :: Text.trim entry

/-- The columns of a shorthand, spelled out one by one. -/
def spelled (source : List Char) (entries : List (List Char)) : Clauses σ :=
  entries.map fun entry => .select (String.ofList (qualified source entry))

variable {q : QuotePair} {source entry : List Char} {entries : List (List Char)}

theorem not_rawMark_prefix (h : ¬rawMark <+: source) (rest : List Char) : ¬rawMark <+: source ++ '.' :: rest := by
  intro hraw
  rcases List.prefix_or_prefix_of_prefix hraw (List.prefix_append source _) with hsource | ⟨more, hmore⟩
  · exact h hsource
  · -- The mark would go on behind the source with the dot.
    rw [← hmore, List.prefix_append_right_inj] at hraw
    cases more with
    | nil => exact h ⟨[], by rw [← hmore]; simp⟩
    | cons c more =>
      obtain rfl := (List.cons_prefix_cons.1 hraw).1
      have hdot : '.' ∈ rawMark := hmore ▸ List.mem_append_right source List.mem_cons_self
      revert hdot
      decide

theorem ofClause_shorthand (hsource : IsSource q source) (hne : entries ≠ [])
    (hentries : ∀ entry ∈ entries, IsEntry entry) :
    Selection.ofClause (shorthand source entries : Clause σ)
      = .ok (entries.map fun entry => .column (entryColumn source entry)) := by
  have hclosing : (openingBrace :: ([','].intercalate entries ++ [closingBrace])).getLast? = some closingBrace := by
    rw [List.getLast?_cons_of_ne_nil (by simp), List.getLast?_concat]
  have htrim : Text.trim (blockText source entries) = blockText source entries :=
    Text.trim_append_cons '.' hsource.trim_eq hsource.ne_nil (Text.trim_eq_self rfl hclosing (by decide) (by decide))
      (List.cons_ne_nil _ _)
  have hshorthand : IsShorthand (blockText source entries) source entries :=
    ⟨rfl, hsource.notBrace, by rw [hsource.trim_eq]; exact hsource.ne_nil, hne, hentries⟩
  have hraw : ¬rawMark <+: (String.ofList (blockText source entries)).toList := by
    rw [String.toList_ofList]
    exact not_rawMark_prefix hsource.notRaw _
  rw [shorthand, Selection.ofClause, expand_eq_expandTrimmed hraw, String.toList_ofList, htrim,
    expandTrimmed_of_isShorthand hshorthand]
  refine congrArg Except.ok ?_
  rw [List.map_map]
  rfl

theorem trim_qualified (hsource : IsSource q source) (hentry : IsEntry entry) :
    Text.trim (qualified source entry) = qualified source entry :=
  Text.trim_append_cons '.' hsource.trim_eq hsource.ne_nil (Text.trim_trim entry) hentry.notBlank

theorem ofClause_qualified (hsource : IsSource q source) (hentry : IsEntry entry) :
    Selection.ofClause (.select (String.ofList (qualified source entry)) : Clause σ)
      = .ok [.column (columnOf none (qualified source entry))] := by
  have hraw : ¬rawMark <+: (String.ofList (qualified source entry)).toList := by
    rw [String.toList_ofList]
    exact not_rawMark_prefix hsource.notRaw _
  have hbrace : hasBrace (qualified source entry) = false := by
    rw [qualified, List.append_cons, hasBrace_append, hasBrace_append, hsource.notBrace, hasBrace_trim,
      hentry.notBrace]
    rfl
  rw [Selection.ofClause, expand_eq_expandTrimmed hraw, String.toList_ofList, trim_qualified hsource hentry,
    expandTrimmed_of_not_hasBrace (by simp [qualified]) hbrace, columnOf_eq, trim_qualified hsource hentry]
  rfl

/-- The column of an entry and the column spelled out are seen alike. -/
theorem seenAlike_qualified {p : Profile} (hp : p.quotes.OfNames) (hsource : IsSource p.quotes source)
    (hentry : IsEntry entry) :
    (entryColumn source entry).SeenAlike p (columnOf none (qualified source entry)) := by
  have hsplit : InlineAlias.split (qualified source entry) = _ :=
    InlineAlias.split_append_dot hsource.trim_eq hsource.ne_nil hsource.hasNoSeparator (Text.trim_trim entry)
      hentry.notBlank
  have hname : IsName (column (some (String.ofList source)) (Text.trim entry)).name := by
    apply isName_column
    rw [Text.trim_trim]
    exact hentry.notBlank
  have hname' : IsName (column none (qualified source entry)).name := by
    apply isName_column
    rw [trim_qualified hsource hentry]
    simp [qualified]
  rw [entryColumn, columnOf_eq, columnOf_eq, trim_qualified hsource hentry, hsource.trim_eq]
  refine ⟨?_, ?_, hname.trans hname'.symm, ?_⟩
  all_goals rw [column, column, hsplit]
  · apply String.toList_injective
    simp [Column.qualifiedName]
  · exact (p.baseName_append_dot hp hsource.closes _).symm

theorem ofItems_shorthand (items : List (Selection σ)) (before behind : Clauses σ) :
    Sections.ofItems items (before ++ [shorthand source entries] ++ behind)
      = Sections.ofItems items (before ++ behind) :=
  Sections.ofItems_append_select (fun _ hclause => ⟨_, List.mem_singleton.1 hclause⟩) items before behind

theorem ofItems_spelled (items : List (Selection σ)) (before behind : Clauses σ) :
    Sections.ofItems items (before ++ spelled source entries ++ behind)
      = Sections.ofItems items (before ++ behind) := by
  refine Sections.ofItems_append_select (fun clause hclause => ?_) items before behind
  obtain ⟨entry, -, rfl⟩ := List.mem_map.1 hclause
  exact ⟨_, rfl⟩

variable {p : Profile}

theorem ofClauses_shorthand (hsource : IsSource q source) (hne : entries ≠ [])
    (hentries : ∀ entry ∈ entries, IsEntry entry) :
    Selection.ofClauses [(shorthand source entries : Clause σ)]
      = .ok (entries.map fun entry => .column (entryColumn source entry)) := by
  rw [Clauses.ofClauses_cons, ofClause_shorthand hsource hne hentries]
  exact congrArg Except.ok (List.append_nil _)

theorem ofClauses_spelled (hsource : IsSource q source) (hentries : ∀ entry ∈ entries, IsEntry entry) :
    Selection.ofClauses (spelled source entries : Clauses σ)
      = .ok (entries.map fun entry => .column (columnOf none (qualified source entry))) := by
  have hlists : entries.mapM
      (Selection.ofClause ∘ fun entry => (.select (String.ofList (qualified source entry)) : Clause σ)) = _ :=
    mapM_of_ok fun entry hentry => ofClause_qualified hsource (hentries entry hentry)
  rw [Selection.ofClauses, spelled, List.mapM_map, hlists]
  exact congrArg Except.ok List.map_eq_flatMap.symm

/-- Replacing a shorthand by what it spells replaces entries of the select list by others that are seen alike. -/
theorem agree_ofClauses (hp : p.quotes.OfNames) (hsource : IsSource p.quotes source) (hne : entries ≠ [])
    (hentries : ∀ entry ∈ entries, IsEntry entry) (before behind : Clauses σ) :
    Agree (List.Forall₂ (Selection.SeenAlike p))
      (Selection.ofClauses (before ++ [shorthand source entries] ++ behind))
      (Selection.ofClauses (before ++ spelled source entries ++ behind)) := by
  have hmiddle : List.Forall₂ (Selection.SeenAlike p)
      (entries.map fun entry => (.column (entryColumn source entry) : Selection σ))
      (entries.map fun entry => .column (columnOf none (qualified source entry))) := by
    rw [List.forall₂_map_left_iff, List.forall₂_map_right_iff, List.forall₂_same]
    exact fun entry hentry => .column (seenAlike_qualified hp hsource (hentries entry hentry))
  have hsame (items : List (Selection σ)) : List.Forall₂ (Selection.SeenAlike p) items items :=
    List.forall₂_same.2 fun item _ => .same item
  rw [Selection.ofClauses_append, Selection.ofClauses_append, ofClauses_shorthand hsource hne hentries,
    Selection.ofClauses_append, Selection.ofClauses_append, ofClauses_spelled hsource hentries]
  apply Agree.bind (R := List.Forall₂ (Selection.SeenAlike p))
  · exact .bind_same _ fun items => .ok (List.rel_append (hsame items) hmiddle)
  · exact fun items items' hitems => .map (.of_eq hsame _) fun _ _ hbehind => List.rel_append hitems hbehind

/-- The sections differ in nothing but the select list. -/
theorem agree_sections (hp : p.quotes.OfNames) (hsource : IsSource p.quotes source) (hne : entries ≠ [])
    (hentries : ∀ entry ∈ entries, IsEntry entry) (before behind : Clauses σ) :
    Agree (fun s s' => List.Forall₂ (Selection.SeenAlike p) s.items s'.items ∧ s' = { s with items := s'.items })
      (Sections.ofClauses (before ++ [shorthand source entries] ++ behind))
      (Sections.ofClauses (before ++ spelled source entries ++ behind)) := by
  refine .map (agree_ofClauses hp hsource hne hentries before behind) fun items items' hitems => ?_
  rw [ofItems_shorthand, ofItems_spelled]
  exact ⟨hitems, rfl⟩

end Specification

/-! ## Queries -/

namespace Query

open Specification

/-- Queries that become each other when shorthands are replaced by the columns that they spell, in the
query itself or inside it at any depth. -/
inductive SpelledOut (q : QuotePair) : Query → Query → Prop where
  | block {source : List Char} {entries : List (List Char)} (before behind : Clauses Query)
      (hsource : IsSource q source) (hne : entries ≠ []) (hentries : ∀ entry ∈ entries, IsEntry entry) :
      SpelledOut q ⟨before ++ [shorthand source entries] ++ behind⟩ ⟨before ++ spelled source entries ++ behind⟩
  | refl (query : Query) : SpelledOut q query query
  /-- The clauses stay, and shorthands are spelled out in the queries nested in them. -/
  | inside {ι : Type} {f g : ι → Query} (clauses : Clauses ι) (h : ∀ i, SpelledOut q (f i) (g i)) :
      SpelledOut q ⟨clauses.map (Clause.map f)⟩ ⟨clauses.map (Clause.map g)⟩
  | trans {query query' query'' : Query} (h : SpelledOut q query query') (h' : SpelledOut q query' query'') :
      SpelledOut q query query''

theorem SpelledOut.emission_eq {t : Target} (hp : t.profile.quotes.OfNames) {query query' : Query}
    (h : SpelledOut t.profile.quotes query query') :
    query.nested t = query'.nested t ∧ query.tokens t = query'.tokens t := by
  induction h with
  | block before behind hsource hne hentries =>
    refine emission_eq_of_tokensAt (fun outermost => ?_) ?_
    · rw [tokensAt_eq, tokensAt_eq]
      refine (agree_sections hp hsource hne hentries before behind).bind_eq fun s s' hs => ?_
      rw [hs.2]
      refine sectionTokens_eq ?_ outermost
      rw [Sections.map_items, List.forall₂_map_left_iff, List.forall₂_map_right_iff]
      exact hs.1.imp fun _ _ hitem => hitem.map _
    · rw [isDelimited_eq _ [], isDelimited_eq _ [], ofItems_shorthand, ofItems_spelled]
  | refl query => exact ⟨rfl, rfl⟩
  | inside clauses _ ih => exact emission_eq_inside clauses fun i => (ih i).1
  | trans _ _ ih ih' => exact ⟨ih.1.trans ih'.1, ih.2.trans ih'.2⟩

end Query

namespace Compiler

/-- Columns spelled out one by one are compiled as their shorthand is, to the same tokens with the same
bindings, or they are refused with the same error. -/
theorem compile_spelledOut (c : Compiler) {query query' : Query}
    (h : query.SpelledOut c.dialect.profile.quotes query') : c.compile query = c.compile query' := by
  rw [compile_eq, compile_eq, (h.emission_eq c.dialect.quotes_ofNames).2]

/-- Two columns of a source with a dot in its quotes, one of them with the separator in its alias. -/
def userColumns : Clauses Query :=
  [.select "[my.users].\x7bid,\n name as user as n\x7d"]

def userColumns' : Clauses Query :=
  [.select "[my.users].id", .select "[my.users].name as user as n"]

/-- A derived table of distinct rows whose window orders by a selected column. -/
def secondPage (columns : Clauses Query) : Query :=
  ⟨[.from (.subquery ⟨[.from (.table "my.users" none), .orderBy (.column "[my.users].id") .desc] ++ columns
    ++ [.distinct, .offset 10]⟩ "u")]⟩

theorem compile_spelledOut_secondPage :
    (secondPage userColumns).SpelledOut Dialect.tsql.profile.quotes (secondPage userColumns') ∧
      ({} : Compiler).compile (secondPage userColumns) = ({} : Compiler).compile (secondPage userColumns') := by
  have hsource : Specification.IsSource Dialect.tsql.profile.quotes "[my.users]".toList :=
    ⟨by decide, by decide, by decide, by decide, InlineAlias.hasNoSeparator_of_notBlank (by simp [Text.isBlank]),
      by decide⟩
  have hentries : ∀ entry ∈ ["id".toList, "\n name as user as n".toList], Specification.IsEntry entry := by
    simp only [List.forall_mem_cons, List.not_mem_nil, false_imp_iff, implies_true, and_true]
    exact ⟨⟨by decide, by decide, by decide⟩, ⟨by decide, by decide, by decide⟩⟩
  have hpage := Query.SpelledOut.block [.from (.table "my.users" none), .orderBy (.column "[my.users].id") .desc]
    [.distinct, .offset 10] hsource (by simp) hentries
  have h : (secondPage userColumns).SpelledOut Dialect.tsql.profile.quotes (secondPage userColumns') :=
    .inside (f := fun _ : Unit => _) (g := fun _ => _) [.from (.subquery () "u")] fun _ => hpage
  exact ⟨h, compile_spelledOut {} h⟩

end Compiler

end QueryCompiler
