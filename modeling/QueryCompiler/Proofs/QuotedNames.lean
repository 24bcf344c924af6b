-- SUMMARY: Which names pass through a table name and a column specification when they are quoted already: those without a separator, and without braces in a specification.
import QueryCompiler.Proofs.Containment
import QueryCompiler.Proofs.SelectList
import QueryCompiler.Proofs.Separators

/-!
# Quoted names

A name that is quoted already is one segment, and a segment in quotes is written as
it is. But before a table name or a column specification is split into segments it is
searched for the separator of an alias, and a specification for braces, and neither
search knows of quotes. The main result says that nothing else stands in the way: the
other characters of a name pass, blanks, dots, commas and quotes among them.
-/

namespace QueryCompiler

/-! ## Searching a quoted name -/

section

variable {α : Type} {word text : List α} {c : α}

theorem infix_of_infix_cons (hc : c ∉ word) (h : word <:+: c :: text) : word <:+: text := by
  rcases List.infix_cons_iff.1 h with hprefix | hinfix
  · cases word with
    | nil => exact List.nil_infix
    | cons d word =>
      obtain rfl := (List.cons_prefix_cons.1 hprefix).1
      exact absurd List.mem_cons_self hc
  · exact hinfix

theorem infix_of_infix_concat (hc : c ∉ word) (h : word <:+: text ++ [c]) : word <:+: text := by
  rw [← List.reverse_infix, List.reverse_append] at h
  exact List.reverse_infix.1 (infix_of_infix_cons (by simpa using hc) h)

end

namespace QuotePair

variable {q : QuotePair} {word text : List Char}

/-- Text without quotes that is at the start of an escaped name is at the start of the name. -/
theorem prefix_of_prefix_escape (hword : q.closing ∉ word) (h : word <+: q.escape text) : word <+: text := by
  induction text generalizing word with
  | nil => exact h
  | cons c text ih =>
    cases word with
    | nil => exact List.nil_prefix
    | cons d word =>
      rw [List.mem_cons, not_or] at hword
      rw [escape_cons] at h
      split at h
      next hc => exact absurd ((List.cons_prefix_cons.1 h).1.trans hc).symm hword.1
      next hc =>
        obtain ⟨rfl, hrest⟩ := List.cons_prefix_cons.1 h
        exact List.cons_prefix_cons.2 ⟨rfl, ih hword.2 hrest⟩

/-- Text without quotes stands in an escaped name where it stands in the name. -/
theorem infix_escape_iff (hword : q.closing ∉ word) : word <:+: q.escape text ↔ word <:+: text := by
  constructor
  · intro h
    induction text with
    | nil => exact h
    | cons c text ih =>
      have hcons := escape_cons q c text
      split at hcons
      next hc =>
        rw [hcons, hc] at h
        exact List.infix_cons (ih (infix_of_infix_cons hword (infix_of_infix_cons hword h)))
      next hc =>
        rw [hcons] at h
        rcases List.infix_cons_iff.1 h with hprefix | hinfix
        · exact (prefix_of_prefix_escape hword (hcons ▸ hprefix)).isInfix
        · exact List.infix_cons (ih hinfix)
  · rintro ⟨front, behind, rfl⟩
    exact ⟨q.escape front, q.escape behind, by rw [escape_append, escape_append, escape_eq_self hword]⟩

/-- So it does in a quoted one. -/
theorem infix_quote_iff (hopening : q.opening ∉ word) (hclosing : q.closing ∉ word) :
    word <:+: q.quote text ↔ word <:+: text := by
  refine Iff.trans ?_ (infix_escape_iff hclosing)
  constructor
  · exact fun h => infix_of_infix_concat hclosing (infix_of_infix_cons hopening h)
  · exact fun h => h.trans ⟨[q.opening], [q.closing], rfl⟩

/-- Quotes that are no part of what a specification is searched for. -/
structure OfSpecifications (q : QuotePair) : Prop where
  opening_ne_mark : q.opening ≠ 'r'
  notBrace : Specification.hasBrace [q.opening, q.closing] = false
  notLetter : ∀ c ∈ [q.opening, q.closing], InlineAlias.isLetterA c = false ∧ InlineAlias.isLetterS c = false

theorem mem_quote_iff {c : Char} (hopening : c ≠ q.opening) (hclosing : c ≠ q.closing) : c ∈ q.quote text ↔ c ∈ text := by
  have hword : [c] <:+: q.quote text ↔ [c] <:+: text :=
    infix_quote_iff (by simpa using Ne.symm hopening) (by simpa using Ne.symm hclosing)
  simpa only [List.singleton_infix_iff] using hword

theorem hasBrace_quote (hq : q.OfSpecifications) :
    Specification.hasBrace (q.quote text) = Specification.hasBrace text := by
  have hbrace (cs : List Char) : Specification.hasBrace cs = true
      ↔ Specification.openingBrace ∈ cs ∨ Specification.closingBrace ∈ cs := by
    simp [Specification.hasBrace, and_or_left, exists_or]
  have hquotes := hq.notBrace
  simp only [Specification.hasBrace, List.any_cons, List.any_nil, Bool.or_false, Bool.or_eq_false_iff,
    decide_eq_false_iff_not] at hquotes
  obtain ⟨⟨hopening, hopening'⟩, hclosing, hclosing'⟩ := hquotes
  rw [Bool.eq_iff_iff, hbrace, hbrace, mem_quote_iff (Ne.symm hopening) (Ne.symm hclosing),
    mem_quote_iff (Ne.symm hopening') (Ne.symm hclosing')]

/-- The separators of a quoted name are those of the name. -/
theorem hasSeparator_quote (hn : q.OfNames) (hq : q.OfSpecifications) :
    InlineAlias.HasSeparator (q.quote text) ↔ InlineAlias.HasSeparator text := by
  rw [← not_iff_not, ← InlineAlias.hasNoSeparator_iff, ← InlineAlias.hasNoSeparator_iff]
  refine forall_congr' fun before => forall_congr' fun a => forall_congr' fun s => forall_congr' fun behind => ?_
  refine forall_congr' fun hbefore => forall_congr' fun ha => forall_congr' fun hs => forall_congr' fun hbehind => ?_
  have hword : ∀ c ∈ [before, a, s, behind],
      (Text.isBlank c || InlineAlias.isLetterA c || InlineAlias.isLetterS c) = true := by
    simp [hbefore, ha, hs, hbehind]
  have hnotMem (c : Char) (hblank : Text.isBlank c = false) (hc : c ∈ [q.opening, q.closing]) :
      c ∉ [before, a, s, behind] := by
    intro hmem
    obtain ⟨hnotA, hnotS⟩ := hq.notLetter c hc
    have hkind := hword c hmem
    simp [hblank, hnotA, hnotS] at hkind
  exact not_congr (infix_quote_iff (hnotMem _ hn.opening_notBlank (by simp)) (hnotMem _ hn.closing_notBlank (by simp)))

theorem trim_quote (hn : q.OfNames) (name : List Char) : Text.trim (q.quote name) = q.quote name :=
  (Writes.quoted name).trim_eq hn

/-- A quoted name without a separator has no alias. -/
theorem splitAlias_quote (hn : q.OfNames) (hq : q.OfSpecifications) (h : ¬InlineAlias.HasSeparator text) :
    InlineAlias.split (q.quote text) = (q.quote text, none) := by
  have htrim := trim_quote hn text
  have hquoted : ¬InlineAlias.HasSeparator (Text.trim (q.quote text)) := by
    rwa [htrim, hasSeparator_quote hn hq]
  rw [InlineAlias.split_of_not_hasSeparator hquoted, htrim]

/-- A quoted name with a separator is taken for a name and its alias. -/
theorem exists_splitAlias_quote (hn : q.OfNames) (hq : q.OfSpecifications) (h : InlineAlias.HasSeparator text) :
    ∃ name aliasName, InlineAlias.split (q.quote text) = (name, some aliasName) := by
  have hquoted : InlineAlias.HasSeparator (Text.trim (q.quote text)) := by
    rwa [trim_quote hn, hasSeparator_quote hn hq]
  obtain ⟨name, -, aliasName, -, hsplit⟩ := InlineAlias.split_of_hasSeparator hquoted
  exact ⟨name, aliasName, hsplit⟩

end QuotePair

theorem Dialect.quotes_ofSpecifications (d : Dialect) : d.profile.quotes.OfSpecifications := by
  constructor
  case opening_ne_mark => cases d <;> decide
  case notBrace => cases d <;> decide
  case notLetter =>
    refine List.forall_mem_cons.2 ⟨?_, List.forall_mem_singleton.2 ?_⟩
    · cases d <;> decide
    · cases d <;> decide

/-! ## Quoted names as specifications -/

section

variable {p : Profile} {name : String}

theorem toList_quoteIdentifier (p : Profile) (name : String) :
    (p.quoteIdentifier name).toList = p.quotes.quote name.toList :=
  String.toList_ofList

theorem trim_quoteIdentifier (hn : p.quotes.OfNames) (name : String) :
    Text.trim (p.quoteIdentifier name).toList = p.quotes.quote name.toList := by
  rw [toList_quoteIdentifier, QuotePair.trim_quote hn]

theorem isName_quoteIdentifier (hn : p.quotes.OfNames) (name : String) : IsName (p.quoteIdentifier name) := by
  rw [IsName, Text.isVoid, toList_quoteIdentifier, QuotePair.quote, List.cons_append, List.all_cons, hn.opening_notBlank,
    Bool.false_and]

/-- A quoted name is referred to by itself. -/
theorem reference_quoteIdentifier {α : Type} (hn : p.quotes.OfNames) (name : String) :
    (p.reference (p.quoteIdentifier name) : List (Token α)) = [.raw (p.quoteIdentifier name)] := by
  have hsegment : (p.segmentToken (p.quotes.quote name.toList) : Token α) = .raw (p.quoteIdentifier name) := by
    rw [Profile.segmentToken, if_neg QuotePair.quote_ne_star, if_pos (QuotePair.isQuoted_quote _ _)]
    rfl
  rw [Profile.reference, trim_quoteIdentifier hn, QuotePair.split_quote, List.map_singleton, QuotePair.trim_quote hn, hsegment]
  rfl

namespace Specification

theorem not_rawMark_quoteIdentifier (hq : p.quotes.OfSpecifications) (name : String) :
    ¬rawMark <+: (p.quoteIdentifier name).toList := by
  rw [toList_quoteIdentifier]
  intro hraw
  exact hq.opening_ne_mark (List.cons_prefix_cons.1 hraw).1.symm

theorem expand_quoteIdentifier (hn : p.quotes.OfNames) (hq : p.quotes.OfSpecifications)
    (hbrace : hasBrace name.toList = false) :
    expand (p.quoteIdentifier name) = .ok [.column (column none (p.quotes.quote name.toList))] := by
  have hquoted : hasBrace (p.quotes.quote name.toList) = false := (QuotePair.hasBrace_quote hq).trans hbrace
  rw [expand_eq_expandTrimmed (not_rawMark_quoteIdentifier hq name), trim_quoteIdentifier hn]
  exact expandTrimmed_of_not_hasBrace (List.cons_ne_nil _ _) hquoted

theorem exists_flaw_of_quoteIdentifier (hn : p.quotes.OfNames) (hq : p.quotes.OfSpecifications)
    (hbrace : hasBrace name.toList = true) :
    ∃ flaw, expand (p.quoteIdentifier name) = .error (.badShorthand (p.quoteIdentifier name) flaw) := by
  have hquoted : hasBrace (p.quotes.quote name.toList) = true := (QuotePair.hasBrace_quote hq).trans hbrace
  rw [expand_eq_expandTrimmed (not_rawMark_quoteIdentifier hq name), trim_quoteIdentifier hn]
  refine exists_flaw_of_hasBrace hquoted fun source entries hshorthand => ?_
  -- A shorthand ends with a brace, and a quoted name with a quote.
  have hlast := congrArg List.getLast? hshorthand.text_eq
  have hclosing : p.quotes.closing = closingBrace := by
    simpa [QuotePair.quote, blockText, List.getLast?_cons] using hlast
  have hquotes := hq.notBrace
  simp [hasBrace, hclosing] at hquotes

end Specification

/-- A quoted name without a separator is one entry without an alias. -/
theorem tokens_column_quote (hn : p.quotes.OfNames) (hq : p.quotes.OfSpecifications)
    (hseparator : ¬InlineAlias.HasSeparator name.toList) :
    (Selection.column (Specification.column none (p.quotes.quote name.toList))).tokens p
      = .ok [.raw (p.quoteIdentifier name)] := by
  obtain ⟨_, hname⟩ := (succeeds_checkName .select).2 (isName_quoteIdentifier hn name)
  have hcolumn : Specification.column none (p.quotes.quote name.toList) = ⟨none, p.quoteIdentifier name, none⟩ := by
    rw [Specification.column, QuotePair.splitAlias_quote hn hq hseparator]
    rfl
  rw [hcolumn, Selection.tokens, hname, Column.qualifiedName, reference_quoteIdentifier hn]
  rfl

/-- One with a separator has an alias. -/
theorem exists_tokens_column_quote (hn : p.quotes.OfNames) (hq : p.quotes.OfSpecifications)
    (hseparator : InlineAlias.HasSeparator name.toList) :
    ∃ entry, (Selection.column (Specification.column none (p.quotes.quote name.toList))).tokens p = .ok entry ∧
      1 < entry.length := by
  obtain ⟨first, last, hsplit⟩ := QuotePair.exists_splitAlias_quote hn hq hseparator
  have hname : IsName (Specification.column none (p.quotes.quote name.toList)).name :=
    Specification.isName_column none (by rw [QuotePair.trim_quote hn]; exact List.cons_ne_nil _ _)
  obtain ⟨_, hname⟩ := (succeeds_checkName .select).2 hname
  have halias : (Specification.column none (p.quotes.quote name.toList)).aliasName = some (String.ofList last) := by
    rw [Specification.column, hsplit]
    rfl
  refine ⟨_, by rw [Selection.tokens, hname]; rfl, ?_⟩
  simp [halias, aliasTokens, Token.spaced]

end

/-! ## Quoted names as tables -/

/-- A space outside quotes is seen. -/
theorem Token.ReadAs.char_mem {p : Profile} {part : List Lexeme} (h : ReadAs p .space part) : .char ' ' ∈ part := by
  cases h with
  | name h =>
    have hlength := congrArg List.length h
    simp [Token.text, QuotePair.quote] at hlength
  | word => exact List.mem_map_of_mem (by simp [Token.text])

/-- A phrase with a space in it does not read as one quoted name. -/
theorem Phrase.ne_quote_of_space {p : Profile} (hp : p.QuotesApart) {K : Keyword → Bool} {ts : List (Token Value)}
    (h : Phrase p (fun _ => False) K ts) (hspace : .space ∈ ts) (n : Nat) (name : List Char) :
    (Token.placeholderText p (Token.renumber n ts)).toList ≠ p.quotes.quote name := by
  intro htext
  obtain ⟨parts, hparts, hread⟩ := h.contained hp n [] QuotePair.atBoundary_nil
  rw [htext, QuotePair.read_quote_append QuotePair.atBoundary_nil] at hread
  have hname : [Lexeme.name name] = parts.flatten := by simpa [QuotePair.read] using hread
  have hnumbered : .space ∈ Token.renumber n ts := by
    obtain ⟨front, back, rfl⟩ := List.append_of_mem hspace
    simp [Token.renumber_append, Token.renumber, Token.map]
  obtain ⟨part, hpart, hreadAs⟩ := exists_of_mem_forall₂ hparts.flip hnumbered
  have hchar : Lexeme.char ' ' ∈ parts.flatten := List.mem_flatten.2 ⟨part, hpart, Token.ReadAs.char_mem hreadAs⟩
  rw [← hname] at hchar
  cases List.mem_singleton.1 hchar

/-- The query of a table has nothing else in it. -/
theorem Query.tokens_table {t : Target} {name : String} (hname : IsName name) :
    Query.tokens t (Query.table name)
      = .ok ([.keyword .select, .space, .symbol .star] ++ (Token.spaced .from ++ t.profile.table name none)) := by
  obtain ⟨_, hname⟩ := (succeeds_checkName .from).2 hname
  have hsource : (Source.table name none : Source Nested).tokens t.profile .from = .ok (t.profile.table name none) := by
    rw [Source.tokens, hname]
    rfl
  have hfrom : fromTokens t.profile (some (Source.table name none))
      = .ok (Token.spaced .from ++ t.profile.table name none) := by
    rw [fromTokens, hsource]
    rfl
  let s : Sections Nested := Sections.ofItems [] [.from (.table name none)]
  have hselect : selectTokens t s .plain
      = .ok ([.keyword .select, .space, .symbol .star] ++ (Token.spaced .from ++ t.profile.table name none)) := by
    change (fromTokens t.profile (some (.table name none)) >>= fun source =>
      .ok ([.keyword .select, .space, .symbol .star] ++ source ++ [] ++ [] ++ [] ++ [] ++ [])) = _
    rw [hfrom]
    simp only [List.append_nil]
    rfl
  change (selectTokens t s .plain >>= fun head => .ok ([] ++ head)) = _
  rw [hselect]
  rfl

/-- Its text is that of the table behind `SELECT * FROM`, and nothing is bound. -/
theorem Compiler.exists_compile_table {c : Compiler} {name : String} (hname : IsName name) :
    ∃ r, c.compile (Query.table name) = .ok r ∧ r.bindings = #[] ∧
      r.sql = "SELECT * FROM " ++ Token.placeholderText c.dialect.profile
        (Token.renumber 0 (c.dialect.profile.table name none : List (Token Value))) := by
  let head : List (Token Value) := [.keyword .select, .space, .symbol .star] ++ Token.spaced .from
  have htokens : (Query.table name).tokens c.target = .ok (head ++ c.dialect.profile.table name none) :=
    Query.tokens_table hname
  have hparams : Token.params (head ++ c.dialect.profile.table name none) = [] := by
    simp [head, Token.spaced]
  refine ⟨_, compile_eq_ok_iff.2 ⟨_, htokens, by simp [hparams], rfl⟩, by simp [hparams], ?_⟩
  have hhead : Token.placeholderText c.dialect.profile (Token.renumber 0 head) = "SELECT * FROM " := rfl
  rw [Compiled.sql, Token.renumber_append, ← hhead, ← String.toList_inj, String.toList_append]
  simp only [Token.placeholderText, Token.toList_textOf, List.flatMap_append]
  rfl

section

variable {p : Profile} {name : String}

/-- A quoted name without a separator is a table without an alias. -/
theorem table_quoteIdentifier {α : Type} (hn : p.quotes.OfNames) (hq : p.quotes.OfSpecifications)
    (hseparator : ¬InlineAlias.HasSeparator name.toList) :
    (p.table (p.quoteIdentifier name) none : List (Token α)) = [.raw (p.quoteIdentifier name)] := by
  have hsplit : InlineAlias.splitText (p.quoteIdentifier name) = (p.quoteIdentifier name, none) := by
    rw [InlineAlias.splitText, toList_quoteIdentifier, QuotePair.splitAlias_quote hn hq hseparator]
    rfl
  simp only [Profile.table, hsplit, reference_quoteIdentifier hn]

/-- One with a separator has an alias behind a space. -/
theorem space_mem_table_quoteIdentifier {α : Type} (hn : p.quotes.OfNames) (hq : p.quotes.OfSpecifications)
    (hseparator : InlineAlias.HasSeparator name.toList) :
    .space ∈ (p.table (p.quoteIdentifier name) none : List (Token α)) := by
  obtain ⟨first, last, hsplit⟩ := QuotePair.exists_splitAlias_quote hn hq hseparator
  have hsplit : InlineAlias.splitText (p.quoteIdentifier name) = (String.ofList first, some (String.ofList last)) := by
    rw [InlineAlias.splitText, toList_quoteIdentifier, hsplit]
    rfl
  have halias : .space ∈ (p.tableAlias (String.ofList last) : List (Token α)) := by
    unfold Profile.tableAlias
    split <;> exact List.mem_cons_self
  simp only [Profile.table, hsplit, List.mem_append, halias, or_true]

end

/-- The text of a quoted table is the quoted name exactly when the name has no separator. -/
theorem placeholderText_table_iff (d : Dialect) (name : String) :
    Token.placeholderText d.profile
        (Token.renumber 0 (d.profile.table (d.profile.quoteIdentifier name) none : List (Token Value)))
      = d.profile.quoteIdentifier name ↔ ¬InlineAlias.HasSeparator name.toList := by
  have hn : d.profile.quotes.OfNames := d.quotes_ofNames
  have hq : d.profile.quotes.OfSpecifications := d.quotes_ofSpecifications
  constructor
  · intro htext hseparator
    have hphrase : Phrase d.profile (fun _ => False) Keyword.any
        (d.profile.table (d.profile.quoteIdentifier name) none : List (Token Value)) := phrase_table rfl _ _
    refine hphrase.ne_quote_of_space d.quotesApart (space_mem_table_quoteIdentifier hn hq hseparator) 0 name.toList ?_
    rw [htext, toList_quoteIdentifier]
  · intro hseparator
    rw [table_quoteIdentifier hn hq hseparator, ← String.toList_inj]
    simp [Token.placeholderText, Token.renumber, Token.map, Token.toList_textOf, Token.text]

/-! ## Quoted names in queries -/

/-- A query that is emitted has no malformed specification. -/
theorem Query.succeeds_expand {t : Target} {clauses : Clauses Query} {spec : String}
    (h : Succeeds (Query.tokens t ⟨clauses⟩)) (hspec : .select spec ∈ clauses) : Succeeds (Specification.expand spec) := by
  obtain ⟨tokens, h⟩ := h
  obtain ⟨s, hs, -⟩ := bind_eq_ok h
  have hitems : Succeeds (Selection.ofClauses (clauses.map (Clause.map (Query.nested t)))) := Succeeds.map_iff.1 ⟨s, hs⟩
  have hclauses := Succeeds.mapM_iff.1 (Succeeds.map_iff.1 hitems)
  exact Succeeds.map_iff.1 (hclauses _ (List.mem_map_of_mem hspec))

namespace Compiler

variable {c : Compiler} {name : String} {before behind : Clauses Query} {r r' : Compiled}

/-- A quoted name without a separator and without braces is added as it is. -/
theorem exists_addsEntry_quoteIdentifier (hdistinct : Clauses.isDistinct (before ++ behind) = false)
    (hseparator : ¬InlineAlias.HasSeparator name.toList) (hbrace : Specification.hasBrace name.toList = false)
    (h : c.compile ⟨before ++ behind⟩ = .ok r) :
    ∃ r', c.compile ⟨before ++ [.select (c.dialect.profile.quoteIdentifier name)] ++ behind⟩ = .ok r' ∧
      r.AddsEntry c.target before behind [.raw (c.dialect.profile.quoteIdentifier name)] r' := by
  have hn : c.dialect.profile.quotes.OfNames := c.dialect.quotes_ofNames
  have hq : c.dialect.profile.quotes.OfSpecifications := c.dialect.quotes_ofSpecifications
  exact exists_addsEntry hdistinct (Specification.expand_quoteIdentifier hn hq hbrace)
    (tokens_column_quote hn hq hseparator) h

/-- No other quoted name is. -/
theorem passes_of_addsEntry (hdistinct : Clauses.isDistinct (before ++ behind) = false)
    (h : c.compile ⟨before ++ behind⟩ = .ok r)
    (h' : c.compile ⟨before ++ [.select (c.dialect.profile.quoteIdentifier name)] ++ behind⟩ = .ok r')
    (hadds : r.AddsEntry c.target before behind [.raw (c.dialect.profile.quoteIdentifier name)] r') :
    ¬InlineAlias.HasSeparator name.toList ∧ Specification.hasBrace name.toList = false := by
  have hn : c.dialect.profile.quotes.OfNames := c.dialect.quotes_ofNames
  have hq : c.dialect.profile.quotes.OfSpecifications := c.dialect.quotes_ofSpecifications
  have hbrace : Specification.hasBrace name.toList = false := by
    by_contra hbrace
    obtain ⟨flaw, hflaw⟩ := Specification.exists_flaw_of_quoteIdentifier hn hq (Bool.of_not_eq_false hbrace)
    obtain ⟨tokens, htokens, -⟩ := compile_eq_ok_iff.1 h'
    have hspec : .select (c.dialect.profile.quoteIdentifier name)
        ∈ before ++ [.select (c.dialect.profile.quoteIdentifier name)] ++ behind := by simp
    obtain ⟨items, hitems⟩ := Query.succeeds_expand ⟨tokens, htokens⟩ hspec
    cases hitems.symm.trans hflaw
  refine ⟨fun hseparator => ?_, hbrace⟩
  -- The entry of a name and an alias is longer.
  obtain ⟨entry, hentry, hlength⟩ := exists_tokens_column_quote hn hq hseparator
  obtain ⟨r'', h'', hadds'⟩ :=
    exists_addsEntry hdistinct (Specification.expand_quoteIdentifier hn hq hbrace) hentry h
  cases h'.symm.trans h''
  have heq := hadds.length_eq hadds'
  simp only [List.length_singleton] at heq
  omega

/-- A table of a quoted name is read under that name and no other, and without an alias, exactly when the name has no
separator. A quoted name is added to the select list of a query that keeps duplicates as one identifier without an
alias, and nothing else is changed, exactly when it has no braces either. -/
theorem quoted_passes_iff (c : Compiler) (name : String) :
    (∃ r, c.compile (Query.table (c.dialect.profile.quoteIdentifier name)) = .ok r ∧ r.bindings = #[] ∧
        (r.sql = "SELECT * FROM " ++ c.dialect.profile.quoteIdentifier name ↔
          ¬InlineAlias.HasSeparator name.toList)) ∧
      ∀ before behind r, Clauses.isDistinct (before ++ behind) = false → c.compile ⟨before ++ behind⟩ = .ok r →
        ((∃ r', c.compile ⟨before ++ [.select (c.dialect.profile.quoteIdentifier name)] ++ behind⟩ = .ok r' ∧
            r.AddsEntry c.target before behind [.raw (c.dialect.profile.quoteIdentifier name)] r') ↔
          ¬InlineAlias.HasSeparator name.toList ∧ Specification.hasBrace name.toList = false) := by
  constructor
  · obtain ⟨r, hr, hbindings, hsql⟩ :=
      exists_compile_table (c := c) (isName_quoteIdentifier c.dialect.quotes_ofNames name)
    refine ⟨r, hr, hbindings, ?_⟩
    rw [hsql, String.append_right_inj]
    exact placeholderText_table_iff c.dialect name
  · intro before behind r hdistinct h
    constructor
    · rintro ⟨r', h', hadds⟩
      exact passes_of_addsEntry hdistinct h h' hadds
    · rintro ⟨hseparator, hbrace⟩
      exact exists_addsEntry_quoteIdentifier hdistinct hseparator hbrace h

/-- The first identifiers, and further columns. -/
def firstIds (specs : List String) : Query :=
  ⟨[.from (.table "t" none), .select "id"] ++ specs.map .select ++ [.limit 5]⟩

/-- A name with blanks, a dot, a comma and quotes. -/
theorem quoted_passes_iff_oddName :
    Dialect.tsql.profile.quoteIdentifier "net. price, [old] as" = "[net. price, [old]] as]" ∧
      (∃ r, (⟨.tsql, {}⟩ : Compiler).compile (Query.table "[net. price, [old]] as]") = .ok r ∧
        r.sql = "SELECT * FROM [net. price, [old]] as]") ∧
      ∃ r r', (⟨.tsql, {}⟩ : Compiler).compile (firstIds []) = .ok r ∧
        (⟨.tsql, {}⟩ : Compiler).compile (firstIds ["[net. price, [old]] as]"]) = .ok r' ∧
        r'.sql = "SELECT TOP (@p0) [id], [net. price, [old]] as] FROM [t]" ∧
        r.AddsEntry (Compiler.target ⟨.tsql, {}⟩) [.from (.table "t" none), .select "id"] [.limit 5]
          [.raw "[net. price, [old]] as]"] r' := by
  obtain ⟨r, hr⟩ : ∃ r, (⟨.tsql, {}⟩ : Compiler).compile (firstIds []) = .ok r := ⟨_, rfl⟩
  obtain ⟨r', hr', hsql'⟩ : ∃ r', (⟨.tsql, {}⟩ : Compiler).compile (firstIds ["[net. price, [old]] as]"]) = .ok r' ∧
      r'.sql = "SELECT TOP (@p0) [id], [net. price, [old]] as] FROM [t]" := ⟨_, rfl, rfl⟩
  obtain ⟨⟨table, htable, -, hsql⟩, hselect⟩ := quoted_passes_iff ⟨.tsql, {}⟩ "net. price, [old] as"
  obtain ⟨_, hcompile, hadds⟩ :=
    (hselect [.from (.table "t" none), .select "id"] [.limit 5] r rfl hr).2 ⟨by decide, by decide⟩
  cases hr'.symm.trans hcompile
  exact ⟨rfl, ⟨table, htable, hsql.2 (by decide)⟩, r, r', hr, hr', hsql', hadds⟩

/-- A separator inside the quotes splits a table and a column, and braces are refused although they are balanced. -/
theorem not_passes_splitName :
    (∃ r, (⟨.postgres, {}⟩ : Compiler).compile (Query.table (Dialect.postgres.profile.quoteIdentifier "a as b")) = .ok r ∧
        r.sql = "SELECT * FROM \"\"\"a\" AS \"b\"\"\"" ∧
        r.sql ≠ "SELECT * FROM " ++ Dialect.postgres.profile.quoteIdentifier "a as b") ∧
      (∃ r, (⟨.postgres, {}⟩ : Compiler).compile (Query.table "t") = .ok r) ∧
      (∃ r, (⟨.postgres, {}⟩ : Compiler).compile
          ((Query.table "t").select [Dialect.postgres.profile.quoteIdentifier "a as b"]) = .ok r ∧
        r.sql = "SELECT \"\"\"a\" AS \"b\"\"\" FROM \"t\"") ∧
      (⟨.postgres, {}⟩ : Compiler).compile
          ((Query.table "t").select [Dialect.postgres.profile.quoteIdentifier "a\x7bb\x7d"])
        = .error (.badShorthand "\"a\x7bb\x7d\"" .unbalancedBraces) :=
  ⟨⟨_, rfl, by decide, by decide⟩, ⟨_, rfl⟩, ⟨_, rfl, by decide⟩, rfl⟩

end Compiler

end QueryCompiler
