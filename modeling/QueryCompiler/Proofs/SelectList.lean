-- SUMMARY: A statement is a frame around its select list, so an entry more in the select list changes nothing else.
import Mathlib.Tactic.Simps.Basic
import QueryCompiler.Proofs.Shorthand
import QueryCompiler.Proofs.Values

/-!
# The select list in its statement

The select list of a query ends up somewhere in the statement: at its start, inside a
derived table that cuts out a page, or as an operand in parentheses. Where it ends
up does not depend on what is in it, as long as duplicates are kept. Each emitter on
the way puts the list into a frame of tokens, and frames compose. So a further
clause that adds one entry adds this entry to the statement, and nothing else.
-/

namespace QueryCompiler

/-! ## Select lists -/

namespace Token

/-- The tokens of a select list with these entries, a star without any. -/
def selectList (entries : List (List (Token Value))) : List (Token Value) :=
  if entries.isEmpty then [.symbol .star] else commaSeparated entries

@[simp] theorem params_selectList (entries : List (List (Token Value))) :
    params (selectList entries) = entries.flatMap params := by
  unfold selectList
  split
  next h => rw [List.isEmpty_iff.1 h]; rfl
  next => exact params_commaSeparated entries

theorem commaSeparated_cons {α : Type} (group : List (Token α)) {rest : List (List (Token α))} (h : rest ≠ []) :
    commaSeparated (group :: rest) = group ++ .symbol .comma :: .space :: commaSeparated rest := by
  obtain ⟨next, rest, rfl⟩ := List.exists_cons_of_ne_nil h
  simp [commaSeparated, List.intercalate_cons_cons]

/-- An entry stands between the same tokens, whatever it is. -/
theorem exists_selectList_eq (front back : List (List (Token Value))) :
    ∃ left right, ∀ entry, selectList (front ++ entry :: back) = left ++ entry ++ right := by
  have hlist (entry : List (Token Value)) : selectList (front ++ entry :: back) = commaSeparated (front ++ entry :: back) :=
    if_neg (by simp)
  simp only [hlist]
  induction front with
  | nil =>
    by_cases hback : back = []
    · exact ⟨[], [], fun entry => by simp [hback, commaSeparated]⟩
    · exact ⟨[], .symbol .comma :: .space :: commaSeparated back, fun entry => commaSeparated_cons entry hback⟩
  | cons first front ih =>
    obtain ⟨left, right, hrest⟩ := ih fun entry => if_neg (by simp)
    refine ⟨first ++ .symbol .comma :: .space :: left, right, fun entry => ?_⟩
    have hcons : commaSeparated (first :: (front ++ entry :: back)) = _ := commaSeparated_cons first (by simp)
    simpa [hrest] using hcons

end Token

theorem selectionTokens_eq_map (p : Profile) (items : List (Selection Nested)) :
    selectionTokens p items = (items.mapM (Selection.tokens p)).map Token.selectList := by
  rw [selectionTokens]
  split
  next h =>
    rw [List.isEmpty_iff.1 h]
    rfl
  next h =>
    cases hentries : items.mapM (Selection.tokens p) with
    | error e => rfl
    | ok entries =>
      have hne : entries ≠ [] := by
        rintro rfl
        exact h (by simpa using (mapM_eq_ok hentries).length_eq)
      exact congrArg Except.ok (if_neg (by simpa using hne)).symm

/-- The same sections with another select list. -/
@[simps]
def Sections.withItems {σ : Type} (s : Sections σ) (items : List (Selection σ)) : Sections σ :=
  { s with items := items }

/-- The beginning of a SELECT that keeps duplicates, up to its select list with these entries. -/
def Shape.headTokens (shape : Shape) (entries : List (List (Token Value))) : List (Token Value) :=
  .keyword .select :: (shape.topTokens ++ .space :: Token.selectList entries)

/-! ## Frames -/

/-- Whatever the entries of the select list are, they are emitted in a SELECT between the same tokens. -/
def Frames (p : Profile) (emit : List (Selection Nested) → Emission) (opening : List (Token Value)) (shape : Shape)
    (closing : List (Token Value)) : Prop :=
  ∀ items entries, items.mapM (Selection.tokens p) = .ok entries →
    emit items = .ok (opening ++ shape.headTokens entries ++ closing)

/-- A step that puts the same tokens around whatever it gets, or refuses everything. -/
def Surrounds (step : List (Token Value) → Emission) : Prop :=
  (∃ e, ∀ tokens, step tokens = .error e) ∨ ∃ left right, ∀ tokens, step tokens = .ok (left ++ tokens ++ right)

namespace Surrounds

variable {step step' : List (Token Value) → Emission}

theorem of_eq {g : List (Token Value) → List (Token Value)} (left right : List (Token Value))
    (h : ∀ tokens, g tokens = left ++ tokens ++ right) : Surrounds fun tokens => .ok (g tokens) :=
  .inr ⟨left, right, fun tokens => congrArg Except.ok (h tokens)⟩

theorem bind (h : Surrounds step) (h' : Surrounds step') : Surrounds fun tokens => step tokens >>= step' := by
  obtain ⟨e, herror⟩ | ⟨left, right, hok⟩ := h
  · exact .inl ⟨e, fun tokens => by simp only [herror, Bind.bind, Except.bind]⟩
  · obtain ⟨e, herror⟩ | ⟨left', right', hok'⟩ := h'
    · exact .inl ⟨e, fun tokens => by simp only [hok, Bind.bind, Except.bind, herror]⟩
    · refine .inr ⟨left' ++ left, right ++ right', fun tokens => ?_⟩
      simp only [hok, Bind.bind, Except.bind, hok', List.append_assoc]

theorem comp {g g' : List (Token Value) → List (Token Value)} (h : Surrounds fun tokens => .ok (g tokens))
    (h' : Surrounds fun tokens => .ok (g' tokens)) : Surrounds fun tokens => .ok (g' (g tokens)) :=
  h.bind h'

/-- A step between that does not depend on the tokens. -/
theorem bind_before {α : Type} {x : Except CompileError α} {next : α → List (Token Value) → Emission}
    (h : ∀ a, Surrounds (next a)) : Surrounds fun tokens => x >>= fun a => next a tokens := by
  cases x with
  | error e => exact .inl ⟨e, fun _ => rfl⟩
  | ok a => exact h a

theorem parenthesized (left right : List (Token Value)) :
    Surrounds fun tokens => .ok (left ++ Token.parenthesized tokens ++ right) :=
  of_eq (left ++ [.symbol .lparen]) (.symbol .rparen :: right) fun tokens => by simp [Token.parenthesized]

theorem selectAllFrom (right : List (Token Value)) : Surrounds fun tokens => .ok (selectAllFrom tokens ++ right) :=
  parenthesized _ right

theorem operandTokens (p : Profile) (isDelimited : Bool) : Surrounds (operandTokens p isDelimited) := by
  have hplain : Surrounds fun tokens : List (Token Value) => .ok tokens := of_eq [] [] fun tokens => (List.append_nil tokens).symm
  cases isDelimited with
  | false => exact hplain
  | true =>
    cases hparens : p.hasOperandParens with
    | false => exact .inl ⟨p.notSupported .pagedOperand, fun tokens => by simp [QueryCompiler.operandTokens, hparens]⟩
    | true =>
      have hok : QueryCompiler.operandTokens p true = fun tokens : List (Token Value) => .ok ([] ++ Token.parenthesized tokens ++ []) := by
        funext tokens
        simp [QueryCompiler.operandTokens, hparens]
      exact hok ▸ parenthesized [] []

end Surrounds

/-- An emission of which a success for one select list gives a frame for all of them. -/
def IsFramed (p : Profile) (emit : List (Selection Nested) → Emission) : Prop :=
  ∀ items tokens, emit items = .ok tokens → Succeeds (items.mapM (Selection.tokens p)) ∧
    ∃ opening shape closing, Frames p emit opening shape closing

namespace IsFramed

variable {p : Profile} {emit : List (Selection Nested) → Emission}

theorem error (e : CompileError) : IsFramed p fun _ => .error e := by
  intro items tokens h
  cases h

/-- A step before the emission that does not depend on the select list. -/
theorem bind_before {α : Type} {x : Except CompileError α} {next : α → List (Selection Nested) → Emission}
    (h : ∀ a, IsFramed p (next a)) : IsFramed p fun items => x >>= fun a => next a items := by
  cases x with
  | error e => exact error e
  | ok a => exact h a

/-- A step after the emission that puts tokens around it. -/
theorem bind_after {step : List (Token Value) → Emission} (h : IsFramed p emit) (hstep : Surrounds step) :
    IsFramed p fun items => emit items >>= step := by
  intro items tokens htokens
  obtain ⟨inner, hinner, htokens⟩ := bind_eq_ok htokens
  obtain ⟨hitems, opening, shape, closing, hframe⟩ := h items inner hinner
  obtain ⟨e, herror⟩ | ⟨left, right, hok⟩ := hstep
  · cases (herror inner).symm.trans htokens
  · refine ⟨hitems, left ++ opening, shape, closing ++ right, fun items' entries hentries => ?_⟩
    simp only [hframe items' entries hentries, Bind.bind, Except.bind, hok, List.append_assoc]

theorem map {g : List (Token Value) → List (Token Value)} (h : IsFramed p emit)
    (hg : Surrounds fun tokens => .ok (g tokens)) : IsFramed p fun items => (emit items).map g := by
  have hmap (x : Emission) : x.map g = x >>= fun tokens => .ok (g tokens) := by cases x <;> rfl
  simp only [hmap]
  exact h.bind_after hg

end IsFramed

section

variable {t : Target} {s : Sections Nested}

theorem isFramed_selectTokens (hdistinct : s.distinct = false) (shape : Shape) :
    IsFramed t.profile fun items => selectTokens t (s.withItems items) shape := by
  intro items tokens h
  simp only [selectTokens, selectionTokens_eq_map, Sections.withItems] at h
  obtain ⟨list, hlist, h⟩ := bind_eq_ok h
  obtain ⟨number, hnumber, h⟩ := bind_eq_ok h
  obtain ⟨source, hsource, h⟩ := bind_eq_ok h
  obtain ⟨joins, hjoins, h⟩ := bind_eq_ok h
  obtain ⟨filter, hfilter, h⟩ := bind_eq_ok h
  obtain ⟨groups, hgroups, h⟩ := bind_eq_ok h
  obtain ⟨having, hhaving, h⟩ := bind_eq_ok h
  obtain ⟨order, horder, h⟩ := bind_eq_ok h
  obtain ⟨entries, hentries, -⟩ := map_eq_ok hlist
  refine ⟨⟨entries, hentries⟩, [], shape, number ++ source ++ joins.flatten ++ Token.sectionOf .where_ filter
    ++ Token.sectionOf .groupBy groups ++ Token.sectionOf .having having ++ Token.sectionOf .orderBy order, ?_⟩
  intro items' entries' hentries'
  have hlist' : selectionTokens t.profile items' = .ok (Token.selectList entries') := by
    rw [selectionTokens_eq_map, hentries']
    rfl
  simp [selectTokens, hlist', hnumber, hsource, hjoins, hfilter, hgroups, hhaving, horder, hdistinct, Shape.headTokens,
    Bind.bind, Except.bind, Pure.pure, Except.pure]

theorem isFramed_numberedRows (hdistinct : s.distinct = false) :
    IsFramed t.profile fun items => numberedRows t (s.withItems items) := by
  have hplain (items : List (Selection Nested)) :
      numberedRows t (s.withItems items) = selectTokens t (s.withItems items) .numbered :=
    if_neg (by simp [hdistinct])
  simp only [hplain]
  exact isFramed_selectTokens hdistinct .numbered

theorem isFramed_rowNumberPage (hdistinct : s.distinct = false) (page : Page) (outermost : Bool) :
    IsFramed t.profile fun items => rowNumberPage t (s.withItems items) page outermost := by
  simp only [rowNumberPage, Sections.withItems_orders, List.append_assoc]
  exact (isFramed_numberedRows hdistinct).bind_after (.selectAllFrom _)

theorem isFramed_rowNumPage (hdistinct : s.distinct = false) (page : Page) :
    IsFramed t.profile fun items => rowNumPage t (s.withItems items) page := by
  simp only [rowNumPage]
  refine (isFramed_selectTokens hdistinct .plain).bind_after ?_
  cases page.offset with
  | none =>
    simp only [List.append_assoc]
    exact .selectAllFrom _
  | some offset =>
    -- The numbers are a column of a further query around the rows.
    have houter : Surrounds fun tokens => .ok (selectAllFrom tokens ++ Token.spaced .where_
        ++ pageTest (t.profile.aliasToken t.options.rowNumberAlias) page) := by
      simp only [List.append_assoc]
      exact .selectAllFrom _
    exact (Surrounds.parenthesized _ _).comp houter

theorem isFramed_pagedTokens (hdistinct : s.distinct = false) (outermost : Bool) :
    IsFramed t.profile fun items => pagedTokens t (s.withItems items) outermost := by
  have hpage (items : List (Selection Nested)) : (s.withItems items).page = s.page := rfl
  simp only [pagedTokens, hpage]
  cases Plan.ofPage t.profile.paging s.page with
  | whole => exact isFramed_selectTokens hdistinct .plain
  | limitOffset page =>
    exact (isFramed_selectTokens hdistinct .plain).map (.of_eq [] (limitTokens t.profile page) fun tokens => rfl)
  | top rows => exact isFramed_selectTokens hdistinct (.top rows)
  | rowNumber page => exact isFramed_rowNumberPage hdistinct page outermost
  | rowNum page => exact isFramed_rowNumPage hdistinct page

theorem isFramed_sectionTokens (hdistinct : s.distinct = false) (outermost : Bool) :
    IsFramed t.profile fun items => sectionTokens t (s.withItems items) outermost := by
  have hdelimited (items : List (Selection Nested)) : (s.withItems items).isDelimited = s.isDelimited := rfl
  simp only [sectionTokens, Sections.withItems_ctes, Sections.withItems_arms, hdelimited]
  refine IsFramed.bind_before fun ctes => ?_
  cases harms : s.arms.isEmpty with
  | true =>
    simp only [if_true]
    exact (isFramed_pagedTokens hdistinct outermost).bind_after (.of_eq ctes [] fun tokens => by simp)
  | false =>
    simp only [Bool.false_eq_true, if_false]
    refine (isFramed_pagedTokens hdistinct false).bind_after ?_
    refine (Surrounds.operandTokens t.profile s.isDelimited).bind ?_
    exact .bind_before fun arms => .of_eq ctes arms.flatten fun tokens => rfl

end

/-! ## Added entries -/

/-- The entries of the select list that clauses stand for. -/
def Clauses.entries (t : Target) (clauses : Clauses Query) : Except CompileError (List (List (Token Value))) := do
  let items ← Selection.ofClauses (clauses.map (Clause.map (Query.nested t)))
  items.mapM (Selection.tokens t.profile)

/-- Inside a statement, these entries are emitted for the select list that clauses stand for. -/
def Clauses.WritesEntries (t : Target) (clauses : Clauses Query) (entries : List (List (Token Value))) : Prop :=
  ∃ items, Selection.ofClauses (clauses.map (Clause.map (Query.subquery t))) = .ok items ∧
    List.Forall₂ (fun item entry => (item.emit t.profile).Writes (.ok entry)) items entries

theorem Clauses.writesEntries_iff {t : Target} {clauses : Clauses Query} {entries : List (List (Token Value))} :
    Clauses.WritesEntries t clauses entries ↔ Clauses.entries t clauses = .ok entries := by
  have hitem (item : Selection Query) (entry : List (Token Value)) :
      ((item.map (Query.subquery t)).emit t.profile).Writes (.ok entry)
        ↔ (item.map (Query.nested t)).tokens t.profile = .ok entry :=
    Emitter.Writes.ok_iff (Selection.writes fun q _ => Query.writes t q)
  rw [WritesEntries, Clauses.entries, Selection.ofClauses_map, Selection.ofClauses_map]
  cases Selection.ofClauses clauses with
  | error e =>
    refine iff_of_false ?_ ?_
    · rintro ⟨items, hitems, -⟩
      cases hitems
    · intro hentries
      cases hentries
  | ok items =>
    calc (∃ nested, Except.ok (items.map (Selection.map (Query.subquery t))) = .ok nested ∧
          List.Forall₂ (fun item entry => (item.emit t.profile).Writes (.ok entry)) nested entries)
        ↔ List.Forall₂ (fun item entry => ((item.map (Query.subquery t)).emit t.profile).Writes (.ok entry)) items
            entries := by simp
      _ ↔ List.Forall₂ (fun item entry => (item.map (Query.nested t)).tokens t.profile = .ok entry) items entries := by
        simp only [hitem]
      _ ↔ (items.map (Selection.map (Query.nested t))).mapM (Selection.tokens t.profile) = .ok entries := by
        rw [mapM_eq_ok_iff, List.forall₂_map_left_iff]

/-- The second statement is the first one with one entry more. It stands in the select list behind the entries of the
clauses before it and in front of those of the clauses behind it, and no value is bound for it. -/
def Compiled.AddsEntry (t : Target) (before behind : Clauses Query) (entry : List (Token Value)) (r r' : Compiled) :
    Prop :=
  ∃ front back opening shape closing, Clauses.WritesEntries t before front ∧ Clauses.WritesEntries t behind back ∧
    r.tokens = Token.renumber 0 (opening ++ Shape.headTokens shape (front ++ back) ++ closing) ∧
    r'.tokens = Token.renumber 0 (opening ++ Shape.headTokens shape (front ++ entry :: back) ++ closing) ∧
    r'.bindings = r.bindings

section

variable {t : Target} {before behind : Clauses Query}

/-- The tokens of a query around its select list stay when column specifications are added. -/
theorem Query.exists_frame {tokens : List (Token Value)} (hdistinct : Clauses.isDistinct (before ++ behind) = false)
    (h : Query.tokens t ⟨before ++ behind⟩ = .ok tokens) :
    ∃ front back opening shape closing, Clauses.entries t before = .ok front ∧ Clauses.entries t behind = .ok back ∧
      tokens = opening ++ Shape.headTokens shape (front ++ back) ++ closing ∧
      ∀ specs added, (∀ clause ∈ specs, ∃ spec, clause = .select spec) → Clauses.entries t specs = .ok added →
        Query.tokens t ⟨before ++ specs ++ behind⟩
          = .ok (opening ++ Shape.headTokens shape (front ++ added ++ back) ++ closing) := by
  let nest : Clauses Query → Clauses Nested := List.map (Clause.map (Query.nested t))
  obtain ⟨s, hs, htokens⟩ := bind_eq_ok h
  obtain ⟨items, hitems, rfl⟩ := map_eq_ok hs
  simp only [List.map_append, Selection.ofClauses_append] at hitems
  obtain ⟨first, hfirst, hitems⟩ := bind_eq_ok hitems
  obtain ⟨last, hlast, rfl⟩ := map_eq_ok hitems
  have hkept : (Sections.ofItems [] (nest (before ++ behind))).distinct = false :=
    (Clauses.isDistinct_map _ _).trans hdistinct
  obtain ⟨⟨entries, hentries⟩, opening, shape, closing, hframe⟩ :=
    isFramed_sectionTokens hkept true (first ++ last) tokens htokens
  have hsame := hframe (first ++ last) entries hentries
  rw [List.mapM_append] at hentries
  obtain ⟨front, hfront, hentries⟩ := bind_eq_ok hentries
  obtain ⟨back, hback, hentries⟩ := bind_eq_ok hentries
  cases hentries
  refine ⟨front, back, opening, shape, closing, ?_, ?_, ?_, ?_⟩
  · rw [Clauses.entries, hfirst]
    exact hfront
  · rw [Clauses.entries, hlast]
    exact hback
  · exact Except.ok.inj (htokens.symm.trans hsame)
  · intro specs added hspecs hadded
    obtain ⟨middle, hmiddle, hadded⟩ := bind_eq_ok hadded
    have hlist : Selection.ofClauses (nest (before ++ specs ++ behind)) = .ok (first ++ middle ++ last) := by
      simp only [nest, List.map_append, Selection.ofClauses_append, hfirst, hmiddle, hlast]
      rfl
    have hsections : Sections.ofClauses (nest (before ++ specs ++ behind))
        = .ok ((Sections.ofItems [] (nest (before ++ behind))).withItems (first ++ middle ++ last)) := by
      have hnested : ∀ clause ∈ nest specs, ∃ spec, clause = .select spec := by
        intro clause hclause
        obtain ⟨inner, hinner, rfl⟩ := List.mem_map.1 hclause
        obtain ⟨spec, rfl⟩ := hspecs inner hinner
        exact ⟨spec, rfl⟩
      rw [Sections.ofClauses, hlist]
      simp only [nest, List.map_append]
      exact congrArg Except.ok (Sections.ofItems_append_select hnested _ _ _)
    have hentries : (first ++ middle ++ last).mapM (Selection.tokens t.profile) = .ok (front ++ added ++ back) := by
      simp only [List.mapM_append, hfront, hadded, hback]
      rfl
    change (Sections.ofClauses (nest (before ++ specs ++ behind)) >>= fun s => sectionTokens t s true) = _
    rw [hsections]
    exact hframe _ _ hentries

end

theorem Token.length_renumber {α : Type} (n : Nat) (tokens : List (Token α)) :
    (renumber n tokens).length = tokens.length := by
  induction tokens generalizing n with
  | nil => rfl
  | cons t tokens ih => simp only [renumber, List.length_cons, ih]

/-- What is added has a length that both statements tell. -/
theorem Compiled.AddsEntry.length_eq {t : Target} {before behind : Clauses Query} {entry entry' : List (Token Value)}
    {r r' : Compiled} (h : AddsEntry t before behind entry r r') (h' : AddsEntry t before behind entry' r r') :
    entry.length = entry'.length := by
  obtain ⟨front, back, opening, shape, closing, hfront, hback, hr, hr', -⟩ := h
  obtain ⟨_, _, opening', shape', closing', hfront', hback', hs, hs', -⟩ := h'
  rw [Clauses.writesEntries_iff] at hfront hback hfront' hback'
  cases hfront.symm.trans hfront'
  cases hback.symm.trans hback'
  obtain ⟨left, right, hlist⟩ := Token.exists_selectList_eq front back
  have hlength := congrArg List.length (hr.symm.trans hs)
  have hlength' := congrArg List.length (hr'.symm.trans hs')
  simp only [Token.length_renumber, Shape.headTokens, hlist, List.length_append, List.length_cons] at hlength hlength'
  omega

theorem Selection.params_column {p : Profile} {column : Column} {entry : List (Token Value)}
    (h : (Selection.column column).tokens p = .ok entry) : Token.params entry = [] := by
  obtain ⟨-, -, h⟩ := bind_eq_ok h
  cases h
  simp

namespace Compiler

/-- A column specification adds the column that it stands for. -/
theorem exists_addsEntry {c : Compiler} {before behind : Clauses Query} {spec : String} {column : Column}
    {entry : List (Token Value)} {r : Compiled} (hdistinct : Clauses.isDistinct (before ++ behind) = false)
    (hspec : Specification.expand spec = .ok [.column column])
    (hentry : (Selection.column column).tokens c.dialect.profile = .ok entry)
    (h : c.compile ⟨before ++ behind⟩ = .ok r) :
    ∃ r', c.compile ⟨before ++ [.select spec] ++ behind⟩ = .ok r' ∧ r.AddsEntry c.target before behind entry r' := by
  obtain ⟨tokens, htokens, hlimit, rfl⟩ := compile_eq_ok_iff.1 h
  obtain ⟨front, back, opening, shape, closing, hfront, hback, rfl, hadd⟩ := Query.exists_frame hdistinct htokens
  have hentries : Clauses.entries c.target [.select spec] = .ok [entry] := by
    have hclause : Selection.ofClause (.select spec : Clause Nested) = .ok [.column column] := by
      rw [Selection.ofClause, hspec]
      rfl
    have hclauses : Selection.ofClauses [(.select spec : Clause Nested)] = .ok [.column column] := by
      rw [Clauses.ofClauses_cons, hclause]
      rfl
    change (Selection.ofClauses [(.select spec : Clause Nested)] >>= _) = _
    rw [hclauses]
    change [Selection.column column].mapM (Selection.tokens c.dialect.profile) = _
    rw [List.mapM_cons, hentry]
    rfl
  have htokens' := hadd [.select spec] [entry] (by simp) hentries
  have hparams : Token.params (opening ++ Shape.headTokens shape (front ++ [entry] ++ back) ++ closing)
      = Token.params (opening ++ Shape.headTokens shape (front ++ back) ++ closing) := by
    simp [Shape.headTokens, Selection.params_column hentry]
  refine ⟨_, compile_eq_ok_iff.2 ⟨_, htokens', hparams ▸ hlimit, rfl⟩, ?_⟩
  refine ⟨front, back, opening, shape, closing, Clauses.writesEntries_iff.2 hfront, Clauses.writesEntries_iff.2 hback,
    rfl, ?_, congrArg List.toArray hparams⟩
  simp

end Compiler

end QueryCompiler
