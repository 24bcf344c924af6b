-- SUMMARY: The grammar of column specifications: its texts are expanded, a column for each entry, and every other text is refused.
import QueryCompiler.Proofs.Qualification

/-!
# The grammar of specifications

A specification without the mark of a raw one is a column, or a shorthand: a source,
a dot, and entries in braces with commas between them. The expansion cuts a text by
the match of a pattern and checks afterwards what it has cut out. Here the
shorthands are told by their text alone, with nothing in braces inside it, and the
main result says that these are the ones that are expanded.
-/

namespace QueryCompiler.Specification

/-! ## The grammar -/

/-- The mark of a specification that is taken as it is. -/
def rawMark : List Char :=
  ['r', 'a', 'w', ':']

/-- A source with entries in braces behind it, and commas between these. -/
def blockText (source : List Char) (entries : List (List Char)) : List Char :=
  source ++ '.' :: openingBrace :: ([','].intercalate entries ++ [closingBrace])

/-- A text between the commas of a shorthand. -/
structure IsEntry (text : List Char) : Prop where
  notComma : ',' ∉ text
  notBrace : hasBrace text = false
  notBlank : Text.trim text ≠ []

/-- The text is a shorthand of this source with these entries. -/
structure IsShorthand (text source : List Char) (entries : List (List Char)) : Prop where
  text_eq : text = blockText source entries
  sourceNotBrace : hasBrace source = false
  sourceNotBlank : Text.trim source ≠ []
  ne_nil : entries ≠ []
  isEntry : ∀ entry ∈ entries, IsEntry entry

/-- The column that `name` or `name as alias` stands for, with blanks around it. -/
def columnOf (source : Option String) (text : List Char) : Column where
  source := source
  name := (InlineAlias.splitText (String.ofList (Text.trim text))).1
  aliasName := (InlineAlias.splitText (String.ofList (Text.trim text))).2

/-- The column of an entry. -/
def entryColumn (source entry : List Char) : Column :=
  columnOf (some (String.ofList (Text.trim source))) entry

theorem columnOf_eq (source : Option String) (text : List Char) :
    columnOf source text = column source (Text.trim text) := by
  simp [columnOf, column, InlineAlias.splitText]

theorem afterRawMark?_eq_none {cs : List Char} (h : ¬rawMark <+: cs) : afterRawMark? cs = none := by
  unfold afterRawMark?
  split
  next rest => exact absurd (List.prefix_append rawMark rest) h
  next => rfl

/-- Without the mark, a specification is read without the blanks around it. -/
theorem expand_eq_expandTrimmed {spec : String} (h : ¬rawMark <+: spec.toList) :
    expand spec = expandTrimmed spec (Text.trim spec.toList) := by
  rw [expand, afterRawMark?_eq_none h]

/-! ## Pieces -/

theorem pieces_eq_splitOn (cs : List Char) : pieces cs = cs.splitOn ',' := by
  rw [List.splitOn_eq_splitOnP]
  induction cs with
  | nil => rfl
  | cons c rest ih =>
    rw [pieces, List.splitOnP_cons_eq_if_modifyHead, ih]
    by_cases hc : c = ','
    · simp [hc]
    · obtain ⟨piece, more, hpieces⟩ := List.exists_cons_of_ne_nil (List.splitOnP_ne_nil (fun x => x == ',') rest)
      simp [hc, hpieces]

theorem notMem_of_mem_pieces {cs piece : List Char} (h : piece ∈ pieces cs) : ',' ∉ piece := by
  induction cs generalizing piece with
  | nil =>
    obtain rfl := List.mem_singleton.1 h
    exact List.not_mem_nil
  | cons c rest ih =>
    rw [pieces] at h
    split at h
    · rcases List.mem_cons.1 h with rfl | h
      · exact List.not_mem_nil
      · exact ih h
    next hne =>
      split at h
      · rw [List.mem_singleton.1 h, List.mem_singleton]
        exact Ne.symm hne
      next first more hpieces =>
        rw [hpieces] at ih
        rcases List.mem_cons.1 h with rfl | h
        · exact List.not_mem_cons_of_ne_of_not_mem (Ne.symm hne) (ih List.mem_cons_self)
        · exact ih (List.mem_cons_of_mem first h)

theorem pieces_ne_nil (cs : List Char) : pieces cs ≠ [] := by
  rw [pieces_eq_splitOn, List.splitOn_eq_splitOnP]
  exact List.splitOnP_ne_nil _ cs

/-! ## Braces -/

theorem hasBrace_append (a b : List Char) : hasBrace (a ++ b) = (hasBrace a || hasBrace b) :=
  List.any_append

theorem hasBrace_trim (cs : List Char) : hasBrace (Text.trim cs) = hasBrace cs := by
  have hblanks {blanks : List Char} (h : ∀ c ∈ blanks, Text.isBlank c = true) : hasBrace blanks = false := by
    rw [hasBrace, List.any_eq_false]
    intro c hc hbrace
    have hc := h c hc
    rcases Bool.or_eq_true_iff.1 hbrace with heq | heq <;> rw [of_decide_eq_true heq] at hc <;> cases hc
  obtain ⟨before, behind, hbefore, hbehind, hcs⟩ := Text.exists_blanks cs
  conv_rhs => rw [hcs, hasBrace_append, hasBrace_append, hblanks hbefore, hblanks hbehind]
  rw [Bool.false_or, Bool.or_false]

theorem openingBrace_notMem {cs : List Char} (h : hasBrace cs = false) : openingBrace ∉ cs := by
  intro hmem
  rw [hasBrace, List.any_eq_false] at h
  exact h openingBrace hmem (by decide)

theorem hasBrace_intercalate {entries : List (List Char)} :
    hasBrace ([','].intercalate entries) = false ↔ ∀ entry ∈ entries, hasBrace entry = false := by
  induction entries with
  | nil => simp [hasBrace]
  | cons entry rest ih =>
    cases rest with
    | nil => simp [hasBrace]
    | cons next rest =>
      have hcomma : hasBrace [','] = false := rfl
      rw [List.intercalate_cons_cons, hasBrace_append, hasBrace_append, hcomma, Bool.or_false,
        Bool.or_eq_false_iff, List.forall_mem_cons]
      exact and_congr_right' ih

theorem hasBrace_blockText (source : List Char) (entries : List (List Char)) :
    hasBrace (blockText source entries) = true := by
  rw [hasBrace, List.any_eq_true]
  exact ⟨openingBrace, by simp [blockText], by decide⟩

/-! ## Cutting -/

/-- What follows a source in the pattern. -/
def bodyPattern : Text.Pattern :=
  [.one (· = '.'), .one (· = openingBrace), .group (.many 0 true Text.anyChar), .one (· = closingBrace), .finish]

theorem first_bodyPattern_cons_cons (c d : Char) (rest : List Char) :
    Text.Pattern.first bodyPattern false (c :: d :: rest) =
      if c = '.' ∧ d = openingBrace ∧ rest.getLast? = some closingBrace then some [rest.dropLast] else none := by
  have hlast : rest.getLast?.any (· = closingBrace) = true ↔ rest.getLast? = some closingBrace := by
    simp [Option.any_eq_true]
  by_cases hc : c = '.' <;> by_cases hd : d = openingBrace <;>
    simp [bodyPattern, Text.Pattern.first_one, Text.Pattern.first_allBut, hc, hd, hlast]

theorem block?_eq_some_iff {cs source body : List Char} :
    block? cs = some (source, body) ↔ Text.Pattern.before? bodyPattern cs = some (source, [body]) := by
  have hstart (text : List Char) :
      Text.Pattern.first bodyPattern true text = Text.Pattern.first bodyPattern false text := by
    rw [bodyPattern, Text.Pattern.first_one, Text.Pattern.first_one]
  have hcaptures : blockPattern.captures? cs = _ :=
    (Text.Pattern.captures?_start _ cs).trans (Text.Pattern.first_lazy_zero hstart true cs)
  rw [block?, hcaptures]
  rcases Text.Pattern.before? bodyPattern cs with _ | ⟨front, _ | ⟨inner, _ | _⟩⟩ <;> simp

/-- The body of a match is in braces behind a dot. -/
theorem exists_body_of_first {rest : List Char} {groups : List (List Char)}
    (h : Text.Pattern.first bodyPattern false rest = some groups) :
    ∃ body, groups = [body] ∧ rest = '.' :: openingBrace :: (body ++ [closingBrace]) := by
  rcases rest with _ | ⟨c, _ | ⟨d, rest⟩⟩
  · cases h
  · simp [bodyPattern, Text.Pattern.first_one] at h
  · rw [first_bodyPattern_cons_cons] at h
    split at h
    next hcut =>
      obtain ⟨rfl, rfl, hlast⟩ := hcut
      obtain ⟨body, rfl⟩ := List.getLast?_eq_some_iff.1 hlast
      cases h
      exact ⟨body, by rw [List.dropLast_concat], rfl⟩
    next => cases h

/-- A source without braces ends at the first dot with a brace behind it. -/
theorem before?_bodyPattern {source : List Char} (body : List Char) (h : openingBrace ∉ source) :
    Text.Pattern.before? bodyPattern (source ++ '.' :: openingBrace :: (body ++ [closingBrace]))
      = some (source, [body]) := by
  induction source with
  | nil =>
    rw [List.nil_append, Text.Pattern.before?, first_bodyPattern_cons_cons, List.getLast?_concat,
      if_pos ⟨rfl, rfl, rfl⟩, List.dropLast_concat]
  | cons c source ih =>
    rw [List.mem_cons, not_or] at h
    -- The character behind `c` is no brace, whether it belongs to the source or is the dot.
    obtain ⟨d, more, hmore, hd⟩ :
        ∃ d more, source ++ '.' :: openingBrace :: (body ++ [closingBrace]) = d :: more ∧ d ≠ openingBrace := by
      cases source with
      | nil => exact ⟨_, _, rfl, by decide⟩
      | cons d source => exact ⟨_, _, rfl, fun heq => h.2 (by simp [heq])⟩
    have hnone : Text.Pattern.first bodyPattern false (c :: d :: more) = none := by
      rw [first_bodyPattern_cons_cons, if_neg fun hcut => hd hcut.2.1]
    rw [List.cons_append, Text.Pattern.before?, hmore, hnone, ← hmore, ih h.2]
    rfl

/-- A shorthand is cut at its braces. -/
theorem block?_blockText {source : List Char} {entries : List (List Char)} (h : openingBrace ∉ source) :
    block? (blockText source entries) = some (source, [','].intercalate entries) :=
  block?_eq_some_iff.2 (before?_bodyPattern _ h)

/-- What is cut is a text in braces behind a dot. -/
theorem eq_blockText_of_block? {cs source body : List Char} (h : block? cs = some (source, body)) :
    cs = blockText source (pieces body) := by
  obtain ⟨rest, hcs, hfirst⟩ := Text.Pattern.exists_of_before? (block?_eq_some_iff.1 h)
  obtain ⟨body, hbody, hrest⟩ := exists_body_of_first hfirst
  cases hbody
  rw [hcs, hrest, blockText, pieces_eq_splitOn, List.intercalate_splitOn]

/-! ## Expansion -/

theorem entry_of_isEntry {spec source : String} {text : List Char} (h : IsEntry text) :
    entry spec source text = .ok (.column (columnOf (some source) text)) := by
  rw [entry, if_neg (by simpa using h.notBlank), columnOf_eq]

/-- A shorthand is expanded, a column for each entry. -/
theorem expandTrimmed_of_isShorthand {spec : String} {text source : List Char} {entries : List (List Char)}
    (h : IsShorthand text source entries) :
    expandTrimmed spec text = .ok (entries.map fun entry => .column (entryColumn source entry)) := by
  have hbrace : hasBrace ([','].intercalate entries) = false :=
    hasBrace_intercalate.2 fun entry hentry => (h.isEntry entry hentry).notBrace
  have hpieces : pieces ([','].intercalate entries) = entries := by
    have hcommas : ∀ entry ∈ entries, ',' ∉ entry := fun entry hentry => (h.isEntry entry hentry).notComma
    rw [pieces_eq_splitOn, List.splitOn_intercalate ',' hcommas h.ne_nil]
  have hnonempty : text.isEmpty = false := by
    simp [h.text_eq, blockText]
  have hblock : block? text = some (source, [','].intercalate entries) := by
    rw [h.text_eq, block?_blockText (openingBrace_notMem h.sourceNotBrace)]
  rw [expandTrimmed, hnonempty, hblock]
  change expandBlock spec source ([','].intercalate entries) = _
  rw [expandBlock, if_neg (by simpa using h.sourceNotBlank), hasBrace_trim, h.sourceNotBrace, hbrace, hpieces]
  exact mapM_of_ok fun entry hentry => entry_of_isEntry (h.isEntry entry hentry)

/-- What is cut at braces is a shorthand or is refused. -/
theorem expandBlock_cases (spec : String) {cs source body : List Char} (h : block? cs = some (source, body)) :
    IsShorthand cs source (pieces body) ∨ ∃ flaw, expandBlock spec source body = .error (.badShorthand spec flaw) := by
  rw [expandBlock]
  split
  · exact .inr ⟨_, rfl⟩
  next hblank =>
    split
    · exact .inr ⟨_, rfl⟩
    next hbrace =>
      rw [hasBrace_trim, Bool.not_eq_true, Bool.or_eq_false_iff] at hbrace
      cases hentries : (pieces body).mapM (entry spec (String.ofList (Text.trim source))) with
      | error e =>
        obtain ⟨piece, -, hpiece⟩ := exists_of_mapM_error hentries
        rw [entry] at hpiece
        split at hpiece
        · cases hpiece
          exact .inr ⟨_, rfl⟩
        · cases hpiece
      | ok items =>
        have hbody : ∀ piece ∈ pieces body, hasBrace piece = false := by
          rw [← hasBrace_intercalate, pieces_eq_splitOn, List.intercalate_splitOn, hbrace.2]
        refine .inl ⟨eq_blockText_of_block? h, hbrace.1, by simpa using hblank, pieces_ne_nil body, ?_⟩
        intro piece hpiece
        refine ⟨notMem_of_mem_pieces hpiece, hbody piece hpiece, fun hempty => ?_⟩
        obtain ⟨item, hitem⟩ := Succeeds.mapM_iff.1 ⟨items, hentries⟩ piece hpiece
        rw [entry, hempty] at hitem
        cases hitem

/-- A text without braces is a column. -/
theorem expandTrimmed_of_not_hasBrace {spec : String} {text : List Char} (hne : text ≠ [])
    (hbrace : hasBrace text = false) : expandTrimmed spec text = .ok [.column (column none text)] := by
  have hblock : block? text = none := by
    rw [Option.eq_none_iff_forall_ne_some]
    rintro ⟨source, body⟩ hsome
    rw [eq_blockText_of_block? hsome, hasBrace_blockText] at hbrace
    cases hbrace
  rw [expandTrimmed, if_neg (by simpa using hne), hblock, hbrace]
  rfl

/-- A text with braces that is no shorthand is refused. -/
theorem exists_flaw_of_hasBrace {spec : String} {text : List Char} (hbrace : hasBrace text = true)
    (h : ∀ source entries, ¬IsShorthand text source entries) :
    ∃ flaw, expandTrimmed spec text = .error (.badShorthand spec flaw) := by
  have hne : text.isEmpty = false := by
    cases text with
    | nil => cases hbrace
    | cons => rfl
  rw [expandTrimmed, hne, if_neg (by simp)]
  split
  next source body hblock => exact (expandBlock_cases spec hblock).resolve_left (h source (pieces body))
  next => exact ⟨_, if_pos hbrace⟩

/-- A specification without the raw mark is nothing, a column or a shorthand. What else it is, with
braces in it, is refused. -/
theorem expand_grammar (spec : String) (hraw : ¬rawMark <+: spec.toList) :
    let text := Text.trim spec.toList
    (text = [] → expand spec = .error (.blankName .select)) ∧
      (text ≠ [] → hasBrace text = false → expand spec = .ok [.column (columnOf none text)]) ∧
      (∀ source entries, IsShorthand text source entries →
        expand spec = .ok (entries.map fun entry => .column (entryColumn source entry))) ∧
      (hasBrace text = true → (∀ source entries, ¬IsShorthand text source entries) →
        ∃ flaw, expand spec = .error (.badShorthand spec flaw)) := by
  dsimp only
  rw [expand_eq_expandTrimmed hraw]
  refine ⟨fun hempty => ?_, fun hne hbrace => ?_, fun _ _ h => expandTrimmed_of_isShorthand h,
    exists_flaw_of_hasBrace⟩
  · rw [expandTrimmed, hempty]
    rfl
  · rw [columnOf_eq, Text.trim_trim]
    exact expandTrimmed_of_not_hasBrace hne hbrace

/-- A shorthand over two lines, with an alias that has the separator in it again. -/
def twoLines : String :=
  " users .\x7b id,\n  name AS as as n \x7d "

/-- A shorthand in a shorthand. -/
def nestedBlocks : String :=
  "a.\x7bb.\x7bc\x7d\x7d"

theorem expand_grammar_twoLines_nestedBlocks :
    (¬rawMark <+: twoLines.toList ∧
        IsShorthand (Text.trim twoLines.toList) "users ".toList [" id".toList, "\n  name AS as as n ".toList] ∧
        expand twoLines = .ok [.column ⟨some "users", "id", none⟩, .column ⟨some "users", "name", some "as as n"⟩]) ∧
      ¬rawMark <+: nestedBlocks.toList ∧
      (∀ source entries, ¬IsShorthand (Text.trim nestedBlocks.toList) source entries) ∧
      ∃ flaw, expand nestedBlocks = .error (.badShorthand nestedBlocks flaw) := by
  have hlines : ¬rawMark <+: twoLines.toList := by decide
  have hshorthand : IsShorthand (Text.trim twoLines.toList) "users ".toList
      [" id".toList, "\n  name AS as as n ".toList] := by
    refine ⟨by decide, by decide, by decide, by decide, ?_⟩
    simp only [List.forall_mem_cons, List.not_mem_nil, false_imp_iff, implies_true, and_true]
    exact ⟨⟨by decide, by decide, by decide⟩, ⟨by decide, by decide, by decide⟩⟩
  have hnested : ¬rawMark <+: nestedBlocks.toList := by decide
  have hnone (source : List Char) (entries : List (List Char)) :
      ¬IsShorthand (Text.trim nestedBlocks.toList) source entries := by
    intro h
    have hexpand : expandTrimmed nestedBlocks (Text.trim nestedBlocks.toList) = _ := expandTrimmed_of_isShorthand h
    cases hexpand
  exact ⟨⟨hlines, hshorthand, (expand_grammar twoLines hlines).2.2.1 _ _ hshorthand⟩, hnested, hnone,
    (expand_grammar nestedBlocks hnested).2.2.2 (by decide) hnone⟩

end QueryCompiler.Specification
