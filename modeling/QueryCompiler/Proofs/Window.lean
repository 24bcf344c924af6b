-- SUMMARY: The order of numbered distinct rows refers to the columns of their derived table, exactly when these are exposed under one segment.
import QueryCompiler.Proofs.Delimiting
import QueryCompiler.Proofs.Naming
import QueryCompiler.Proofs.Qualification
import QueryCompiler.Proofs.Splitting

/-!
# The window over distinct rows

Distinct rows are numbered outside the derived table that makes them distinct, so
the order of the numbers can only refer to columns of that table. The table exposes
an entry of its select list under its last token. The order finds the entry by its
name and has to come to the same token on its own way: it takes the alias or the
last segment of the name, and splits and quotes it again. The main result says
exactly when it does.
-/

namespace QueryCompiler

/-! ## Last segments -/

section

variable {α : Type}

theorem sublist_intercalate (sep : List α) {parts : List (List α)} {part : List α} (h : part ∈ parts) :
    part.Sublist (sep.intercalate parts) := by
  induction parts with
  | nil => cases h
  | cons first rest ih =>
    cases rest with
    | nil => rw [List.mem_singleton.1 h, List.intercalate_singleton]
    | cons next rest =>
      rw [List.intercalate_cons_cons, List.append_assoc]
      rcases List.mem_cons.1 h with rfl | h
      · exact List.sublist_append_left _ _
      · exact (ih h).trans ((List.sublist_append_right _ _).trans (List.sublist_append_right _ _))

theorem getLast?_intersperse (s : α) (xs : List α) : (xs.intersperse s).getLast? = xs.getLast? := by
  induction xs with
  | nil => rfl
  | cons x xs ih =>
    cases xs with
    | nil => rfl
    | cons y xs =>
      have hne : (y :: xs).intersperse s ≠ [] := by
        cases xs <;> simp [List.intersperse]
      rw [List.intersperse_cons_cons, List.getLast?_cons_cons, List.getLast?_cons_of_ne_nil hne, ih,
        List.getLast?_cons_cons]

end

namespace QuotePair

variable {q : QuotePair} {p : Position} {text part : List Char}

theorem length_consFirst {c : Char} {parts : List (List Char)} (h : parts ≠ []) :
    (consFirst c parts).length = parts.length := by
  cases parts with
  | nil => exact absurd rfl h
  | cons => rfl

theorem getLast?_consFirst {c : Char} {parts : List (List Char)} (h : 1 < parts.length) :
    (consFirst c parts).getLast? = parts.getLast? := by
  match parts with
  | [] | [_] => simp at h
  | _ :: _ :: _ => rfl

theorem eq_of_splitFrom_eq_singleton (h : q.splitFrom p text = [part]) : part = text := by
  have htext := intercalate_splitFrom q p text
  rwa [h, List.intercalate_singleton] at htext

theorem sublist_of_mem_splitFrom (h : part ∈ q.splitFrom p text) : part.Sublist text := by
  have hpart := sublist_intercalate ['.'] h
  rwa [intercalate_splitFrom] at hpart

/-- A reader inside quotes and a reader outside come together, except where the one outside stays there. -/
theorem step_eq_or (h : q.opening ≠ q.closing) (p : Position) (c : Char) :
    q.step p c = q.step .outside c ∨ q.step .outside c = .outside := by
  by_cases hc : c = q.opening
  · have hclosing : c ≠ q.closing := hc ▸ h
    left
    cases p <;> simp [step, hc, h]
  · exact .inr (if_neg hc)

/-- Where a text that is read inside quotes is split at all, its last part is the same as outside. -/
theorem getLast?_splitFrom (hq : q.opening ≠ q.closing) (h : 1 < (q.splitFrom p text).length) :
    (q.splitFrom p text).getLast? = (q.split text).getLast? ∧ 1 < (q.split text).length := by
  induction text generalizing p with
  | nil => simp [splitFrom] at h
  | cons c text ih =>
    by_cases hstep : q.step p c = q.step .outside c
    · have hsame : q.splitFrom p (c :: text) = q.split (c :: text) := by
        rw [split, splitFrom, splitFrom, hstep]
      exact ⟨by rw [hsame], hsame ▸ h⟩
    · have houtside := (step_eq_or hq p c).resolve_left hstep
      rw [houtside] at hstep
      rw [splitFrom, if_neg (fun hdot => hstep hdot.2)] at h ⊢
      rw [length_consFirst (splitFrom_ne_nil q _ text)] at h
      obtain ⟨hlast, hlength⟩ := ih h
      have hne := q.split_ne_nil text
      rw [getLast?_consFirst h, hlast]
      -- Outside, a dot starts a further part, and every other character goes into the first one.
      by_cases hdot : c = '.'
      · have hparts : q.split (c :: text) = [] :: q.split text := by
          rw [split, splitFrom, houtside, if_pos ⟨hdot, rfl⟩, split]
        rw [hparts, List.getLast?_cons_of_ne_nil hne]
        exact ⟨rfl, Nat.lt_succ_of_lt hlength⟩
      · have hparts : q.split (c :: text) = consFirst c (q.split text) := by
          rw [split, splitFrom, houtside, if_neg (fun h => hdot h.1), split]
        rw [hparts, getLast?_consFirst hlength, length_consFirst hne]
        exact ⟨rfl, hlength⟩

theorem lastPart_mem (q : QuotePair) (name : List Char) : q.lastPart name ∈ q.split name :=
  List.mem_of_getLast? (getLast?_split q name)

/-- The last part behind a dot stays the last part of the whole, unless it is glued to what stands before the dot. -/
theorem trim_lastPart_append_dot_iff (hq : q.OfNames) (hne : q.opening ≠ q.closing) {a b : List Char} :
    Text.trim (q.lastPart (a ++ '.' :: b)) = Text.trim (q.lastPart b)
      ↔ q.Closes a ∨ 1 < (q.splitFrom .inside b).length := by
  by_cases hcloses : q.Closes a
  · exact iff_of_true (by rw [lastPart_append_dot hq hcloses]) (.inl hcloses)
  obtain ⟨front, last, first, rest, -, hinside, hparts⟩ := exists_split_append_dot (b := b) hq hcloses
  cases rest with
  | nil =>
    obtain rfl := eq_of_splitFrom_eq_singleton hinside
    refine iff_of_false (fun htrim => ?_) (by simp [hcloses, hinside])
    have hglued : q.lastPart (a ++ '.' :: first) = last ++ '.' :: first := by
      rw [lastPart, hparts, List.getLastD_concat]
    -- What is glued has a dot more than the last part can have.
    have hdots := congrArg (List.count '.') htrim
    have hle := (sublist_of_mem_splitFrom (q.lastPart_mem first)).count_le '.'
    rw [hglued, Text.count_dot_trim, Text.count_dot_trim, List.count_append, List.count_cons_self] at hdots
    omega
  | cons next rest =>
    have hlength : 1 < (q.splitFrom .inside b).length := by
      rw [hinside]
      simp
    refine iff_of_true (congrArg Text.trim (lastPart_congr ?_)) (.inr hlength)
    rw [← (getLast?_splitFrom hne hlength).1, hparts, hinside,
      List.getLast?_append_of_ne_nil _ (List.cons_ne_nil _ _), List.getLast?_cons_cons, List.getLast?_cons_cons]

end QuotePair

/-! ## References of one segment -/

namespace Profile

variable {α : Type} {p : Profile}

theorem reference_eq_singleton_iff (hp : p.quotes.OfNames) {name : String} {token : Token α} :
    p.reference name = [token] ↔ p.segmentTokens name.toList = [token] := by
  rw [reference_eq hp]
  exact (intersperse_injective _).eq_iff (b := [token])

/-- A name is referred to by the token of an alias exactly when it is one segment. -/
theorem reference_eq_aliasToken_iff (hp : p.quotes.OfNames) {name : String} :
    (p.reference name : List (Token α)) = [p.aliasToken name] ↔ (p.quotes.split name.toList).length = 1 := by
  rw [reference_eq_singleton_iff hp, segmentTokens]
  constructor
  · intro h
    simpa using congrArg List.length h
  · intro h
    obtain ⟨part, hpart⟩ := List.length_eq_one_iff.1 h
    rw [hpart, QuotePair.eq_of_splitFrom_eq_singleton hpart]
    rfl

/-- The last segment of a name is referred to by its own token. -/
theorem reference_baseName (hp : p.quotes.OfNames) (name : String) :
    (p.reference (p.baseName name) : List (Token α))
      = [p.segmentToken (Text.trim (p.quotes.lastPart name.toList))] := by
  rw [reference_eq_singleton_iff hp, segmentTokens, baseName_eq, String.toList_ofList,
    QuotePair.split_of_mem_split (p.quotes.lastPart_mem name.toList)]
  rfl

theorem getLast?_reference (hp : p.quotes.OfNames) (name : String) :
    (p.reference name : List (Token α)).getLast?
      = some (p.segmentToken (Text.trim (p.quotes.lastPart name.toList))) := by
  rw [reference_eq hp, getLast?_intersperse, segmentTokens, List.getLast?_map, QuotePair.getLast?_split]
  rfl

end Profile

/-! ## Exposed entries -/

variable {σ : Type} {p : Profile}

namespace Selection

/-- Whether the order may refer to an entry by this name. -/
def isNamed (name : String) : Selection σ → Bool
  | .column c => c.qualifiedName = name || c.aliasName = some name
  | .aggregate _ _ aliasName => aliasName = some name
  | .raw _ | .subquery .. => false

/-- The name by which an entry is looked for from outside. -/
def visibleName? (p : Profile) : Selection σ → Option String
  | .column c => some (c.aliasName.getD (p.baseName c.name))
  | .aggregate _ _ aliasName => aliasName
  | .raw _ | .subquery .. => none

theorem outputName?_eq (name : String) (item : Selection σ) :
    item.outputName? p name = if item.isNamed name then item.visibleName? p else none := by
  cases item with
  | column c => simp [outputName?, isNamed, visibleName?]
  | aggregate function column aliasName =>
    by_cases h : aliasName = some name <;> simp [outputName?, isNamed, visibleName?, h]
  | raw | subquery => rfl

/-- The entry is exposed under the name by which it is looked for: an alias has to be one segment, and without an
alias the last segment of the name must not be glued to the source. A star is no name. -/
def IsExposed (p : Profile) : Selection σ → Prop
  | .column ⟨_, _, some aliasName⟩ | .aggregate _ _ (some aliasName) =>
    (p.quotes.split aliasName.toList).length = 1 ∧ Text.trim aliasName.toList ≠ ['*']
  -- What follows an open quote of the source is glued to it, up to the first dot behind the closing one.
  | .column ⟨source, name, none⟩ =>
    (∀ s ∈ source, p.quotes.Closes s.toList ∨ 1 < (p.quotes.splitFrom .inside name.toList).length) ∧
      Text.trim (p.quotes.lastPart name.toList) ≠ ['*']
  | .aggregate _ _ none | .raw _ | .subquery .. => False

end Selection

/-- What stands behind a term of an order. -/
def Direction.tokens : Direction → List (Token Value)
  | .asc => []
  | .desc => [.space, .keyword .desc]

/-- The term orders by the one identifier under which the entry is exposed. This is the last token of the entry: its
alias, or without an alias the last segment of its name. -/
def RefersTo (p : Profile) (direction : Direction) (term entry : List (Token Value)) : Prop :=
  ∃ token, token.IsIdentifier p ∧ entry.getLast? = some token ∧ term = token :: direction.tokens

theorem directedTokens_column {name : String} {direction : Direction} {term : List (Token Value)}
    (h : directedTokens p (.column name, direction) = .ok term) :
    IsName name ∧ term = p.reference name ++ direction.tokens := by
  obtain ⟨tokens, htokens, h⟩ := bind_eq_ok h
  obtain ⟨_, hname, htokens⟩ := bind_eq_ok htokens
  cases htokens
  refine ⟨(succeeds_checkName .orderBy).1 ⟨_, hname⟩, ?_⟩
  cases direction <;> cases h
  · exact (List.append_nil _).symm
  · rfl

theorem refersTo_reference_iff {name : String} {direction : Direction} {entry : List (Token Value)}
    {token : Token Value} (hentry : entry.getLast? = some token) :
    RefersTo p direction (p.reference name ++ direction.tokens) entry
      ↔ p.reference name = [token] ∧ token.IsIdentifier p := by
  constructor
  · rintro ⟨token', hidentifier, hlast, hterm⟩
    cases hentry.symm.trans hlast
    exact ⟨List.append_cancel_right hterm, hidentifier⟩
  · rintro ⟨hreference, hidentifier⟩
    exact ⟨token, hidentifier, hentry, by rw [hreference]; rfl⟩

section

variable {direction : Direction} {term entry : List (Token Value)}

/-- An entry that ends with its alias. -/
theorem refersTo_alias_iff (hp : p.quotes.OfNames) {aliasName : String}
    (hentry : entry.getLast? = some (p.aliasToken aliasName))
    (hterm : directedTokens p (.column aliasName, direction) = .ok term) :
    RefersTo p direction term entry
      ↔ (p.quotes.split aliasName.toList).length = 1 ∧ Text.trim aliasName.toList ≠ ['*'] := by
  obtain ⟨hname, rfl⟩ := directedTokens_column hterm
  rw [refersTo_reference_iff hentry, Profile.reference_eq_aliasToken_iff hp]
  exact and_congr_right' (segmentToken_isIdentifier (isName_iff.1 hname))

/-- An entry that ends with the last segment of its name. -/
theorem refersTo_lastPart_iff (hp : p.quotes.OfNames) {name : String} {qualified : List Char}
    (hentry : entry.getLast? = some (p.segmentToken (Text.trim (p.quotes.lastPart qualified))))
    (hterm : directedTokens p (.column (p.baseName name), direction) = .ok term) :
    RefersTo p direction term entry
      ↔ Text.trim (p.quotes.lastPart qualified) = Text.trim (p.quotes.lastPart name.toList) ∧
        Text.trim (p.quotes.lastPart name.toList) ≠ ['*'] := by
  have hterm := directedTokens_column hterm
  have hne : Text.trim (p.quotes.lastPart name.toList) ≠ [] := by
    have hbase := isName_iff.1 hterm.1
    rwa [Profile.baseName_eq, String.toList_ofList] at hbase
  rw [hterm.2, refersTo_reference_iff hentry, Profile.reference_baseName hp, List.cons.injEq, and_iff_left rfl,
    p.segmentToken_injective.eq_iff, eq_comm]
  refine and_congr_right fun hlast => ?_
  rw [hlast, segmentToken_isIdentifier hne]

theorem getLast?_append_aliasTokens (ts : List (Token Value)) (aliasName : String) :
    (ts ++ aliasTokens p (some aliasName)).getLast? = some (p.aliasToken aliasName) := by
  rw [aliasTokens, ← List.append_assoc, List.getLast?_concat]

theorem Selection.refersTo_iff (hp : p.quotes.OfNames) (hne : p.quotes.opening ≠ p.quotes.closing)
    {f : σ → Nested} {item : Selection σ} {visible : String} (hvisible : item.visibleName? p = some visible)
    (hentry : (item.map f).tokens p = .ok entry) (hterm : directedTokens p (.column visible, direction) = .ok term) :
    RefersTo p direction term entry ↔ item.IsExposed p := by
  cases item with
  | column c =>
    obtain ⟨_, -, hentry⟩ := bind_eq_ok hentry
    obtain ⟨source, name, aliasName⟩ := c
    cases hentry
    cases hvisible
    cases aliasName with
    | some aliasName => exact refersTo_alias_iff hp (getLast?_append_aliasTokens _ _) hterm
    | none =>
      have hlast := Profile.getLast?_reference hp (Column.qualifiedName ⟨source, name, none⟩) (α := Value)
      rw [refersTo_lastPart_iff hp (by rw [aliasTokens, List.append_nil, hlast]) hterm, IsExposed]
      refine and_congr_left' ?_
      cases source with
      | none => simp [Column.qualifiedName]
      | some source =>
        have hqualified : (Column.qualifiedName ⟨some source, name, none⟩).toList
            = source.toList ++ '.' :: name.toList := by
          simp [Column.qualifiedName]
        rw [hqualified, QuotePair.trim_lastPart_append_dot_iff hp hne]
        simp
  | aggregate function column aliasName =>
    obtain ⟨tokens, -, hentry⟩ := bind_eq_ok hentry
    cases aliasName with
    | none => cases hvisible
    | some aliasName =>
      cases hvisible
      cases hentry
      exact refersTo_alias_iff hp (getLast?_append_aliasTokens _ _) hterm
  | raw | subquery => cases hvisible

end

/-! ## First named entries -/

theorem Selection.exists_visibleName {name : String} {item : Selection σ} (h : item.isNamed name = true) :
    ∃ visible, item.visibleName? p = some visible := by
  cases item with
  | column c => exact ⟨_, rfl⟩
  | aggregate function column aliasName => exact ⟨name, of_decide_eq_true h⟩
  | raw | subquery => cases h

/-- The order looks for the first entry with its name. -/
theorem exists_visible_of_find? {R : Selection σ → List (Token Value) → Prop} {items : List (Selection σ)}
    {entries : List (List (Token Value))} {name : String} {item : Selection σ} {entry : List (Token Value)}
    (h : List.Forall₂ R items entries)
    (hfind : (items.zip entries).find? (fun pair => pair.1.isNamed name) = some (item, entry)) :
    R item entry ∧ item.visibleName? p = some (outputName p items name) := by
  induction h with
  | nil => cases hfind
  | @cons item' entry' items entries hhere _ ih =>
    rw [List.zip_cons_cons] at hfind
    have hhead := Selection.outputName?_eq (p := p) name item'
    by_cases hnamed : item'.isNamed name = true
    · simp only [List.find?_cons, hnamed] at hfind
      cases hfind
      obtain ⟨visible, hvisible⟩ := Selection.exists_visibleName (p := p) hnamed
      rw [if_pos hnamed, hvisible] at hhead
      rw [outputName, List.findSome?_cons, hhead]
      exact ⟨hhere, hvisible⟩
    · simp only [List.find?_cons, hnamed] at hfind
      rw [if_neg hnamed] at hhead
      rw [outputName, List.findSome?_cons, hhead]
      exact ih hfind

/-! ## Numbered distinct rows -/

/-- Distinct rows with their numbers: the terms of the order, the entries of the select list, and what follows
these in the derived table. -/
def numberedTokens (t : Target) (terms entries : List (List (Token Value))) (rest : List (Token Value)) :
    List (Token Value) :=
  [.keyword .select, .space, .symbol .star, .symbol .comma, .space]
    ++ (.function "ROW_NUMBER" :: Token.parenthesized [] ++ Token.spaced .over
      ++ Token.parenthesized ([.keyword .orderBy, .space] ++ Token.commaSeparated terms)
      ++ aliasTokens t.profile (some t.options.rowNumberAlias))
    ++ Token.spaced .from
    ++ Token.parenthesized ([.keyword .select, .space, .keyword .distinct, .space]
      ++ Token.commaSeparated entries ++ rest)
    ++ t.profile.tableAlias distinctTable

/-- The entries are those that are emitted for the select list, and each term that names an entry refers to the first
such one exactly when the entry is exposed under its name. -/
structure Sections.OrdersExposed (t : Target) (s : Sections Query) (terms entries : List (List (Token Value))) :
    Prop where
  emitted : List.Forall₂ (fun item entry => ((item.map (Query.subquery t)).emit t.profile).Writes (.ok entry))
    s.items entries
  exposed : List.Forall₂ (fun order term => ∀ name item entry, order.1 = .column name →
      (s.items.zip entries).find? (fun pair => pair.1.isNamed name) = some (item, entry) →
      (RefersTo t.profile order.2 term entry ↔ item.IsExposed t.profile)) s.orders terms

section

variable {t : Target} {s : Sections Query} {ts : List (Token Value)}

theorem exists_terms {orders : List (Term × Direction)} (hne : orders ≠ []) (h : numberingTokens t orders = .ok ts) :
    ∃ terms, List.Forall₂ (fun order term => directedTokens t.profile order = .ok term) orders terms ∧
      ts = .function "ROW_NUMBER" :: Token.parenthesized [] ++ Token.spaced .over
        ++ Token.parenthesized ([.keyword .orderBy, .space] ++ Token.commaSeparated terms)
        ++ aliasTokens t.profile (some t.options.rowNumberAlias) := by
  obtain ⟨order, horder, h⟩ := bind_eq_ok h
  obtain ⟨terms, hterms, rfl⟩ := map_eq_ok horder
  rw [if_neg (by simpa using hne)] at h
  cases h
  exact ⟨terms, mapM_eq_ok hterms, rfl⟩

theorem exists_entries {s : Sections Nested} (hdistinct : s.distinct = true) (hne : s.items ≠ [])
    (h : selectTokens t s .unordered = .ok ts) :
    ∃ entries rest, List.Forall₂ (fun item entry => item.tokens t.profile = .ok entry) s.items entries ∧
      ts = [.keyword .select, .space, .keyword .distinct, .space] ++ Token.commaSeparated entries ++ rest := by
  obtain ⟨items, hitems, h⟩ := bind_eq_ok h
  obtain ⟨number, hnumber, h⟩ := bind_eq_ok h
  obtain ⟨source, -, h⟩ := bind_eq_ok h
  obtain ⟨joins, -, h⟩ := bind_eq_ok h
  obtain ⟨filter, -, h⟩ := bind_eq_ok h
  obtain ⟨groups, -, h⟩ := bind_eq_ok h
  obtain ⟨having, -, h⟩ := bind_eq_ok h
  obtain ⟨order, -, h⟩ := bind_eq_ok h
  rw [selectionTokens, if_neg (by simpa using hne)] at hitems
  obtain ⟨entries, hentries, rfl⟩ := map_eq_ok hitems
  cases hnumber
  cases h
  refine ⟨entries, source ++ joins.flatten ++ Token.sectionOf .where_ filter ++ Token.sectionOf .groupBy groups
    ++ Token.sectionOf .having having ++ Token.sectionOf .orderBy order, mapM_eq_ok hentries, ?_⟩
  rw [if_pos hdistinct]
  simp only [Shape.topTokens, List.append_assoc, List.cons_append, List.nil_append]

theorem exists_numberedTokens (hp : t.profile.quotes.OfNames)
    (hq : t.profile.quotes.opening ≠ t.profile.quotes.closing) (hdistinct : s.distinct = true)
    (horders : s.orders ≠ []) (hitems : s.items ≠ []) (h : numberedDistinct t (s.map (Query.nested t)) = .ok ts) :
    ∃ terms entries rest, ts = numberedTokens t terms entries rest ∧ s.OrdersExposed t terms entries := by
  obtain ⟨number, hnumber, h⟩ := bind_eq_ok h
  obtain ⟨inner, hinner, h⟩ := bind_eq_ok h
  cases h
  obtain ⟨terms, hterms, rfl⟩ := exists_terms (by simpa using horders) hnumber
  obtain ⟨entries, rest, hentries, rfl⟩ := exists_entries hdistinct (by simpa using hitems) hinner
  have hentries := List.forall₂_map_left_iff.1 hentries
  refine ⟨terms, entries, rest, rfl, hentries.imp fun item entry hentry => ?emitted, ?exposed⟩
  case emitted =>
    rw [← hentry]
    exact Selection.writes fun inner _ => Query.writes t inner
  case exposed =>
    refine (List.forall₂_map_left_iff.1 hterms).imp fun order term hterm name item entry hname hfind => ?_
    obtain ⟨term', direction⟩ := order
    cases hname
    obtain ⟨hentry, hvisible⟩ := exists_visible_of_find? (p := t.profile) hentries hfind
    have hterm : directedTokens t.profile ((Term.column name).output t.profile
        (s.items.map (Selection.map (Query.nested t))), direction) = .ok term := hterm
    rw [Term.output_map] at hterm
    exact item.refersTo_iff hp hq hvisible hentry hterm

/-! ## Statements -/

theorem exists_numberedDistinct {s : Sections Nested} (hpaging : t.profile.paging = .topCount) (hdistinct : s.distinct = true)
    (hoffset : s.page.offset.isSome = true) {outermost : Bool} (h : pagedTokens t s outermost = .ok ts) :
    ∃ numbered, numberedDistinct t s = .ok numbered ∧ numbered <:+: ts := by
  have hplan : Plan.ofPage t.profile.paging s.page = .rowNumber s.page := by
    rw [hpaging]
    generalize s.page = page at hoffset
    obtain ⟨limit, offset⟩ := page
    cases offset with
    | none => cases hoffset
    | some offset => cases limit <;> rfl
  rw [pagedTokens, hplan] at h
  obtain ⟨inner, hinner, h⟩ := bind_eq_ok h
  rw [numberedRows, if_pos hdistinct] at hinner
  cases h
  refine ⟨inner, hinner, (isInfix_parenthesized inner).trans ?_⟩
  rw [selectAllFrom, List.append_assoc, List.append_assoc, List.append_assoc, List.append_assoc]
  exact ⟨_, _, List.append_assoc _ _ _⟩

theorem exists_pagedTokens {s : Sections Nested} {outermost : Bool} (h : sectionTokens t s outermost = .ok ts) :
    ∃ outermost paged, pagedTokens t s outermost = .ok paged ∧ paged <:+: ts := by
  obtain ⟨ctes, -, h⟩ := bind_eq_ok h
  split at h
  · obtain ⟨head, hhead, h⟩ := bind_eq_ok h
    cases h
    exact ⟨outermost, head, hhead, (List.suffix_append ctes head).isInfix⟩
  · obtain ⟨head, hhead, h⟩ := bind_eq_ok h
    obtain ⟨operand, hoperand, h⟩ := bind_eq_ok h
    obtain ⟨arms, -, h⟩ := bind_eq_ok h
    cases h
    have hinner : head <:+: operand := by
      obtain ⟨-, rfl⟩ | ⟨-, -, rfl⟩ := operandTokens_cases hoperand
      · exact List.infix_refl _
      · exact isInfix_parenthesized _
    exact ⟨false, head, hhead, hinner.trans ⟨ctes, arms.flatten, rfl⟩⟩

end

namespace Compiler

/-- On SQL Server the rows of a distinct query with an offset are numbered outside of their derived table. A term
of the order that names an entry of the select list is the identifier under which the derived table exposes
the first such entry, exactly when the alias of the entry is one segment or, without an alias, the last segment of its
name is not glued to its source. -/
theorem ordersExposed_compile {c : Compiler} {q : Query} {r : Compiled} (hc : c.dialect = .tsql)
    (h : c.compile q = .ok r) :
    q.AtEveryLevel fun inner => ∀ s, inner.sections = .ok s → s.distinct = true → s.page.offset.isSome = true →
      s.orders ≠ [] → s.items ≠ [] →
      ∃ n terms entries rest, Token.renumber n (numberedTokens c.target terms entries rest) <:+: r.tokens ∧
        s.OrdersExposed c.target terms entries := by
  have hprofile : c.target.profile = Dialect.tsql.profile := by
    rw [target, hc]
  refine (Query.atEveryLevel_emitted (run_emit_of_compile h)).mono fun inner hinner s hs hdistinct hoffset horders
    hitems => ?_
  obtain ⟨context, _, after, hemit, hinfix⟩ := hinner
  obtain ⟨part, hpart, rfl⟩ := Query.exists_tokensAt hemit
  rw [Query.tokensAt_eq, hs] at hpart
  obtain ⟨outermost, paged, hpaged, hhead⟩ := exists_pagedTokens hpart
  have hpaging : c.target.profile.paging = .topCount := by
    rw [hprofile]
    rfl
  obtain ⟨numbered, hnumbered, hrows⟩ := exists_numberedDistinct hpaging hdistinct hoffset hpaged
  have hquotes : c.target.profile.quotes.opening ≠ c.target.profile.quotes.closing := by
    rw [hprofile]
    decide
  obtain ⟨terms, entries, rest, rfl, hexposed⟩ := exists_numberedTokens c.dialect.quotes_ofNames hquotes hdistinct
    horders hitems hnumbered
  obtain ⟨m, hm⟩ := Token.exists_renumber_isInfix (hrows.trans hhead) context.bindings.size
  exact ⟨m, terms, entries, rest, hm.trans hinfix, hexposed⟩

/-- Users once each, in the order of an aliased column, of one without an alias and of an aggregate. -/
def numberedUsers : Query :=
  ⟨[.from (.table "users as u" none), .column ⟨some "u", "city", some "town"⟩,
    .column ⟨some "[u]", "[last.name]", none⟩, .aggregate .count "*" (some "n"), .distinct,
    .orderBy (.column "u.city") .desc, .orderBy (.column "[u].[last.name]") .asc, .orderBy (.column "n") .desc,
    .offset 10]⟩

theorem ordersExposed_compile_numberedUsers :
    ∃ r s, ({} : Compiler).compile numberedUsers = .ok r ∧ numberedUsers.sections = .ok s ∧
      s.distinct = true ∧ s.page.offset.isSome = true ∧ s.orders ≠ [] ∧ s.items ≠ [] ∧
      (∀ item ∈ s.items, item.IsExposed Dialect.tsql.profile) ∧
      ∃ n terms entries rest,
        Token.renumber n (numberedTokens ({} : Compiler).target terms entries rest) <:+: r.tokens ∧
        s.OrdersExposed ({} : Compiler).target terms entries := by
  obtain ⟨r, hr⟩ : ∃ r, ({} : Compiler).compile numberedUsers = .ok r := ⟨_, rfl⟩
  obtain ⟨s, hs, hitems, horders, hdistinct, hoffset⟩ : ∃ s, numberedUsers.sections = .ok s ∧
      s.items = [.column ⟨some "u", "city", some "town"⟩, .column ⟨some "[u]", "[last.name]", none⟩,
        .aggregate .count "*" (some "n")] ∧
      s.orders ≠ [] ∧ s.distinct = true ∧ s.page.offset.isSome = true := ⟨_, rfl, rfl, by decide, rfl, rfl⟩
  have hne : s.items ≠ [] := by simp [hitems]
  have hexposed : ∀ item ∈ s.items, item.IsExposed Dialect.tsql.profile := by
    rw [hitems]
    simp only [List.forall_mem_cons, List.not_mem_nil, false_imp_iff, implies_true, and_true]
    refine ⟨⟨by decide, by decide⟩, ⟨fun source hsource => ?_, by decide⟩, ⟨by decide, by decide⟩⟩
    cases hsource
    exact .inl (by decide)
  have hlevels := ordersExposed_compile rfl hr
  exact ⟨r, s, hr, hs, hdistinct, hoffset, horders, hne, hexposed,
    (Query.atEveryLevel_iff.1 hlevels).1 s hs hdistinct hoffset horders hne⟩

/-- Rows once each, in the order of a column with a dot in its alias. -/
def dottedAlias : Query :=
  ⟨[.from (.table "t" none), .column ⟨none, "id", some "a.b"⟩, .orderBy (.column "a.b") .asc, .distinct, .offset 10]⟩

/-- The derived table exposes this column under one identifier, and the order refers to two. -/
theorem not_refersTo_dottedAlias :
    let term : List (Token Value) := [.ident "a", .symbol .dot, .ident "b"]
    let entry : List (Token Value) := [.ident "id", .space, .keyword .as, .space, .ident "a.b"]
    ∃ r rest, ({} : Compiler).compile dottedAlias = .ok r ∧
      Token.renumber 0 (numberedTokens ({} : Compiler).target [term] [entry] rest) <:+: r.tokens ∧
      ¬RefersTo Dialect.tsql.profile .asc term entry := by
  refine ⟨_, Token.spaced .from ++ [.ident "t"], rfl, ⟨[.keyword .select, .space, .symbol .star, .space,
    .keyword .from, .space, .symbol .lparen], Token.renumber 0 ([.symbol .rparen] ++ Token.spaced .as ++ [.ident "results_wrapper"]
      ++ Token.spaced .where_ ++ [.ident "row_num", .space, .symbol .ge, .space, .param (Value.int 11)]
      ++ Token.spaced .orderBy ++ [.ident "row_num"]), rfl⟩, ?_⟩
  rintro ⟨token, -, -, hterm⟩
  have hlength := congrArg List.length hterm
  revert hlength
  simp [Direction.tokens]

end Compiler

end QueryCompiler
