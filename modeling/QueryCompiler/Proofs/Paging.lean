-- SUMMARY: Every construct that pages a SELECT, read with its bound values, keeps exactly the rows of the page.
import QueryCompiler.Proofs.Reading
import QueryCompiler.Proofs.Values

/-!
# Paging

The constructs that page a SELECT look nothing alike, and yet they mean the same
page. The reader of this module is given the words of the SELECT without its page
and those of its numbered rows; it knows no page. From the words of the paged SELECT
it tells which of the rows are kept: a count keeps the first rows, a test keeps the
rows with the right numbers, and `ROWNUM` counts the rows that are kept. Bound values
are read as the integers that they are.
-/

namespace QueryCompiler

variable {ρ σ : Type}

/-! ## Rows -/

/-- The rows of a page. -/
def Page.cut (page : Page) (rows : List ρ) : List ρ :=
  match page.limit with
  | some limit => (rows.drop (page.offset.getD 0)).take limit
  | none => rows.drop (page.offset.getD 0)

/-- The rows that the clauses ask for: the last offset is skipped unless it is negative, and of the
others as many are taken as the last limit says unless it is zero. -/
def Clauses.cut (clauses : Clauses σ) (rows : List ρ) : List ρ :=
  let rest :=
    match (clauses.filterMap Clause.offset?).getLast? with
    | some offset => rows.drop offset.toInt.toNat
    | none => rows
  match (clauses.filterMap Clause.limit?).getLast? with
  | some limit => if limit = 0 then rest else rest.take limit.toNat
  | none => rest

theorem Clauses.cut_eq (clauses : Clauses σ) (rows : List ρ) :
    clauses.cut rows = clauses.page.cut rows := by
  have hoffset : (match (clauses.filterMap Clause.offset?).getLast? with
      | some offset => rows.drop offset.toInt.toNat
      | none => rows) = rows.drop (clauses.offset.getD 0) := by
    unfold Clauses.offset
    cases (clauses.filterMap Clause.offset?).getLast? with
    | none => rfl
    | some offset =>
      dsimp only
      by_cases hneg : offset.toInt ≤ 0
      · rw [if_pos hneg, Int.toNat_of_nonpos hneg]
        rfl
      · rw [if_neg hneg]
        rfl
  unfold Clauses.cut Page.cut Clauses.page
  rw [hoffset]
  dsimp only
  unfold Clauses.limit
  cases (clauses.filterMap Clause.limit?).getLast? with
  | none => rfl
  | some limit =>
    dsimp only
    have hzero : limit = 0 ↔ limit.toNat = 0 := by
      rw [← UInt64.toNat_inj]
      rfl
    by_cases h0 : limit.toNat = 0
    · rw [if_pos (hzero.2 h0), if_pos h0]
    · rw [if_neg fun h => h0 (hzero.1 h), if_neg h0]

/-- The rows whose numbers, from one on, pass a test. -/
def keepNumbered (test : Nat → Bool) (rows : List ρ) : List ρ :=
  ((rows.zipIdx 1).filter fun row => test row.2).map Prod.fst

/-- The rows that pass a test when they come, each with the number after those of the rows that are
kept before it. -/
def keepCounted (test : Nat → Bool) (next : Nat) : List ρ → List ρ
  | [] => []
  | row :: rest =>
    if test next then row :: keepCounted test (next + 1) rest else keepCounted test next rest

theorem filter_le_zipIdx (low k : Nat) (rows : List ρ) :
    ((rows.zipIdx k).filter fun row => low ≤ row.2) = (rows.drop (low - k)).zipIdx (max low k) := by
  induction rows generalizing k with
  | nil => simp
  | cons row rest ih =>
    rw [List.zipIdx_cons, List.filter_cons, ih]
    by_cases h : low ≤ k
    · have hmax : max low (k + 1) = k + 1 := by omega
      have hzero : low - k = 0 := by omega
      have hzero' : low - (k + 1) = 0 := by omega
      simp [h, hmax, hzero, hzero', List.zipIdx_cons]
    · have hsucc : low - k = low - (k + 1) + 1 := by omega
      have hmax : max low (k + 1) = max low k := by omega
      simp [h, hsucc, hmax]

theorem filter_lt_zipIdx (high k : Nat) (rows : List ρ) :
    ((rows.zipIdx k).filter fun row => row.2 < high) = (rows.take (high - k)).zipIdx k := by
  induction rows generalizing k with
  | nil => simp
  | cons row rest ih =>
    rw [List.zipIdx_cons, List.filter_cons, ih]
    by_cases h : k < high
    · have hsucc : high - k = high - (k + 1) + 1 := by omega
      simp [h, hsucc, List.zipIdx_cons]
    · have hzero : high - k = 0 := by omega
      have hzero' : high - (k + 1) = 0 := by omega
      simp [h, hzero, hzero']

/-- Counting the rows that are kept, up to a number. -/
theorem keepCounted_le (n next : Nat) (rows : List ρ) :
    keepCounted (fun i => decide (i ≤ n)) next rows = rows.take (n + 1 - next) := by
  induction rows generalizing next with
  | nil => simp [keepCounted]
  | cons row rest ih =>
    by_cases h : next ≤ n
    · have hsucc : n + 1 - next = n + 1 - (next + 1) + 1 := by omega
      rw [keepCounted, if_pos (by simpa using h), ih, hsucc, List.take_succ_cons]
    · have hzero : n + 1 - next = 0 := by omega
      rw [keepCounted, if_neg (by simpa using h), ih, hzero, List.take_zero, List.take_zero]

/-- Whether the row with a number is on the page. -/
def Page.holds (page : Page) (i : Nat) : Bool :=
  page.offset.getD 0 < i && match page.limit with
    | some limit => decide (i < page.offset.getD 0 + limit + 1)
    | none => true

theorem keepNumbered_congr {test test' : Nat → Bool} {rows : List ρ}
    (h : ∀ i, 0 < i → i ≤ rows.length → test i = test' i) :
    keepNumbered test rows = keepNumbered test' rows := by
  refine congrArg (List.map Prod.fst) (List.filter_congr fun row hrow => ?_)
  have hmem := List.mem_zipIdx hrow
  exact h row.2 (by omega) (by omega)

/-- The rows with the numbers of a page are the rows of the page. -/
theorem keepNumbered_holds (page : Page) (rows : List ρ) :
    keepNumbered page.holds rows = page.cut rows := by
  have hge :
      ∀ row : ρ × Nat, decide (page.offset.getD 0 < row.2) = decide (page.offset.getD 0 + 1 ≤ row.2) :=
    fun row => decide_eq_decide.2 Nat.lt_iff_add_one_le
  unfold keepNumbered Page.holds Page.cut
  simp only [hge]
  cases page.limit with
  | none =>
    simp only [Bool.and_true]
    rw [filter_le_zipIdx, List.zipIdx_map_fst]
    rfl
  | some limit =>
    have hlast : page.offset.getD 0 + limit + 1 - 1 - (page.offset.getD 0 + 1 - 1) = limit := by omega
    rw [← List.filter_filter, filter_lt_zipIdx, filter_le_zipIdx, List.drop_take, hlast,
      List.zipIdx_map_fst]
    rfl

/-! ## The reader -/

/-- What follows the first words of a text, if it begins with these. -/
def after? (first ws : List (Token Value)) : Option (List (Token Value)) :=
  if first <+: ws then some (ws.drop first.length) else none

/-- A bound number of rows. A negative one is no number of rows. -/
def readCount : Token Value → Option Nat
  | .param (.int n) => if n.toInt < 0 then none else some n.toInt.toNat
  | _ => none

/-- The rows that a limit keeps. The profile knows a limit that keeps all. -/
def readLimit (p : Profile) : Token Value → Option (List ρ → List ρ)
  | .raw rows => if p.loneOffset = .afterLimit rows then some id else none
  | n => (readCount n).map List.take

/-- What `LIMIT` and `OFFSET` behind a SELECT keep. -/
def readSuffix (p : Profile) : List (Token Value) → Option (List ρ → List ρ)
  | [.keyword .limit, n] => readLimit p n
  | [.keyword .offset, m] => (readCount m).map List.drop
  | [.keyword .limit, n, .keyword .offset, m] => do
    let limit ← readLimit p n
    let offset ← readCount m
    return fun rows => limit (rows.drop offset)
  | _ => none

/-- What `TOP` in a SELECT keeps, when the words without it are `plain`. -/
def readTop (plain : List (Token Value)) : List (Token Value) → Option (List ρ → List ρ)
  | .keyword .select :: .keyword .top :: .symbol .lparen :: n :: .symbol .rparen :: rest =>
    if plain = .keyword .select :: rest then (readCount n).map List.take else none
  | .keyword .select :: .keyword .distinct :: .keyword .top :: .symbol .lparen :: n :: .symbol .rparen :: rest =>
    if plain = .keyword .select :: .keyword .distinct :: rest then (readCount n).map List.take else none
  | _ => none

/-- A comparison of the row number with a bound value. -/
def readComparison (ordinal : Token Value) : Token Value → Token Value → Token Value → Option (Nat → Bool)
  | left, .symbol op, .param (.int b) =>
    if left = ordinal then
      match op with
      | .ge => some fun i => decide (b.toInt ≤ i)
      | .lt => some fun i => decide ((i : Int) < b.toInt)
      | .le => some fun i => decide ((i : Int) ≤ b.toInt)
      | _ => none
    else none
  | _, _, _ => none

/-- A test of the row number: one comparison or two, perhaps with an order on the row number behind
them, in which numbered rows are anyway. -/
def readTest (ordinal : Token Value) : List (Token Value) → Option (Nat → Bool)
  | [a, op, b] => readComparison ordinal a op b
  | [a, op, b, .keyword .orderBy, last] => if last = ordinal then readComparison ordinal a op b else none
  | [a, op, b, .keyword .and, a', op', b'] => do
    let first ← readComparison ordinal a op b
    let second ← readComparison ordinal a' op' b'
    return fun i => first i && second i
  | [a, op, b, .keyword .and, a', op', b', .keyword .orderBy, last] => do
    let first ← readComparison ordinal a op b
    let second ← readComparison ordinal a' op' b'
    if last = ordinal then return fun i => first i && second i else none
  | _ => none

section

variable (t : Target)

/-- The words of the alias of a table. -/
def aliasWords (name : String) : List (Token Value) :=
  (if t.profile.tableAliasAs then [.keyword .as] else []) ++ [t.profile.aliasToken name]

/-- The words of `SELECT * FROM` a query in parentheses, up to its test. -/
def wrapperWords (inner name : List (Token Value)) : List (Token Value) :=
  [.keyword .select, .symbol .star, .keyword .from] ++ Token.parenthesized inner ++ name ++ [.keyword .where_]

/-- The words of a query that numbers the rows of another one by `ROWNUM`. -/
def rowNumWords (plain : List (Token Value)) : List (Token Value) :=
  [.keyword .select, t.profile.aliasToken t.options.wrapperAlias, .symbol .dot, .symbol .star, .symbol .comma,
      rowNumToken, .keyword .as, t.profile.aliasToken t.options.rowNumberAlias, .keyword .from]
    ++ Token.parenthesized plain ++ aliasWords t t.options.wrapperAlias

/-- What a test keeps outside a query with numbered rows. -/
def readWrapper (first ws : List (Token Value)) : Option (List ρ → List ρ) := do
  let rest ← after? first ws
  let test ← readTest (t.profile.aliasToken t.options.rowNumberAlias) rest
  return keepNumbered test

/-- What a test of `ROWNUM` keeps outside the SELECT. -/
def readRowNum (plain ws : List (Token Value)) : Option (List ρ → List ρ) := do
  let rest ← after? (wrapperWords plain []) ws
  let test ← readTest rowNumToken rest
  return keepCounted test 1

/-- What a text keeps of the rows of a SELECT, given the words of the SELECT without a page and with
numbered rows, as far as there are any. -/
def readPage (plain numbered : Option (List (Token Value))) (ts : List (Token Value)) :
    Option (List ρ → List ρ) :=
  let ws := Token.words ts
  if plain = some ws then some id
  else
    match t.profile.paging with
    | .limitOffset => plain.bind fun plain => (after? plain ws).bind (readSuffix t.profile)
    | .topCount =>
      (plain.bind fun plain => readTop plain ws).or
        (numbered.bind fun numbered =>
          readWrapper t (wrapperWords numbered (aliasWords t t.options.wrapperAlias)) ws)
    | .rowNumber =>
      numbered.bind fun numbered =>
        readWrapper t (wrapperWords numbered (aliasWords t t.options.wrapperAlias)) ws
    | .rowNum =>
      plain.bind fun plain =>
        (readWrapper t (wrapperWords (rowNumWords t plain) []) ws).or (readRowNum plain ws)

end

/-! ## Reading bound values -/

theorem readCount_bound (n : Nat) :
    readCount (Token.value (.int (Page.bound n))) = some (min n (2 ^ 63 - 1)) := by
  have hbound := Page.toInt_bound n
  rw [Token.value, readCount, if_neg (by omega), hbound]
  rfl

theorem take_min_of_lt {rows : List ρ} {bound : Nat} (h : rows.length < bound) (n : Nat) :
    rows.take (min n bound) = rows.take n := by
  by_cases hn : n ≤ bound
  · rw [Nat.min_eq_left hn]
  · rw [List.take_of_length_le (by omega), List.take_of_length_le (by omega)]

theorem drop_min_of_lt {rows : List ρ} {bound : Nat} (h : rows.length < bound) (n : Nat) :
    rows.drop (min n bound) = rows.drop n := by
  by_cases hn : n ≤ bound
  · rw [Nat.min_eq_left hn]
  · rw [List.drop_of_length_le (by omega), List.drop_of_length_le (by omega)]

theorem after?_append (first rest : List (Token Value)) : after? first (first ++ rest) = some rest := by
  rw [after?, if_pos (List.prefix_append first rest), List.drop_left]

theorem after?_of_length_lt {first ws : List (Token Value)} (h : ws.length < first.length) :
    after? first ws = none :=
  if_neg fun hprefix => Nat.not_le.2 h hprefix.length_le

/-! ### Tests -/

/-- The words read as a test that agrees with the page on all numbers of rows. -/
def TestsPage (ordinal : Token Value) (page : Page) (ws : List (Token Value)) : Prop :=
  ∃ test, readTest ordinal ws = some test ∧ ∀ i, 0 < i → i < 2 ^ 63 - 1 → test i = page.holds i

theorem words_ordinalTest {ordinal : Token Value} (h : ordinal.isSpace = false) (op : Symbol) (b : Int64) :
    Token.words (ordinalTest ordinal op b) = [ordinal, .symbol op, Token.value (.int b)] := by
  rw [ordinalTest, Token.words_cons h]
  rfl

theorem testsPage_pageTest {ordinal : Token Value} (hordinal : ordinal.isSpace = false) {page : Page}
    (hpage : page.isPartial = true) {last : List (Token Value)}
    (hlast : last = [] ∨ last = [.keyword .orderBy, ordinal]) :
    TestsPage ordinal page (Token.words (pageTest ordinal page) ++ last) := by
  obtain ⟨limit, offset⟩ := page
  cases offset with
  | none =>
    cases limit with
    | none => cases hpage
    | some limit =>
      refine ⟨fun i => decide ((i : Int) ≤ (Page.bound limit).toInt), ?_, fun i hi hlt => ?_⟩
      · rcases hlast with rfl | rfl <;>
          simp [pageTest, words_ordinalTest hordinal, readTest, readComparison, Token.value]
      · rw [Bool.eq_iff_iff]
        simp only [Page.toInt_bound, Page.holds, Option.getD_none, Bool.and_eq_true, decide_eq_true_eq]
        omega
  | some offset =>
    cases limit with
    | none =>
      refine ⟨fun i => decide ((Page.firstRow offset).toInt ≤ i), ?_, fun i hi hlt => ?_⟩
      · rcases hlast with rfl | rfl <;>
          simp [pageTest, words_ordinalTest hordinal, readTest, readComparison, Token.value]
      · rw [Bool.eq_iff_iff]
        simp only [Page.firstRow_eq, Page.toInt_bound, Page.holds, Option.getD_some, Bool.and_true,
          decide_eq_true_eq]
        omega
    | some limit =>
      refine ⟨fun i => decide ((Page.firstRow offset).toInt ≤ i) &&
        decide ((i : Int) < (Page.pastLastRow offset limit).toInt),
        ?_, fun i hi hlt => ?_⟩
      · rcases hlast with rfl | rfl <;>
          simp [pageTest, words_ordinalTest hordinal, readTest, readComparison, Token.value]
      · rw [Bool.eq_iff_iff]
        simp only [Page.firstRow_eq, Page.pastLastRow_eq, Page.toInt_bound, Page.holds, Option.getD_some,
          Bool.and_eq_true, decide_eq_true_eq]
        omega

theorem keepNumbered_of_testsPage {page : Page} {test : Nat → Bool} {rows : List ρ}
    (htest : ∀ i, 0 < i → i < 2 ^ 63 - 1 → test i = page.holds i) (hrows : rows.length < 2 ^ 63 - 1) :
    keepNumbered test rows = page.cut rows := by
  rw [← keepNumbered_holds]
  exact keepNumbered_congr fun i hi hlength => htest i hi (by omega)

/-! ## Reading the constructs -/

/-- A text keeps the rows of the page, however many rows there are up to the greatest integer. -/
def Keeps (page : Page) (select : List ρ → List ρ) : Prop :=
  ∀ rows, rows.length < 2 ^ 63 - 1 → select rows = page.cut rows

section

variable {t : Target} {page : Page}

theorem readLimit_bound (p : Profile) (n : Nat) :
    readLimit (ρ := ρ) p (Token.value (.int (Page.bound n))) = some (List.take (min n (2 ^ 63 - 1))) := by
  show (readCount _).map _ = _
  rw [readCount_bound]
  rfl

/-- What stands behind a SELECT keeps the rows of the page. -/
theorem readSuffix_limitTokens (p : Profile) (hpage : page.isPartial = true) :
    ∃ select : List ρ → List ρ,
      readSuffix p (Token.words (limitTokens p page)) = some select ∧ Keeps page select := by
  obtain ⟨limit, offset⟩ := page
  cases limit with
  | none =>
    cases offset with
    | none => cases hpage
    | some offset =>
      cases hlone : p.loneOffset with
      | bare =>
        have hwords : Token.words (limitTokens p ⟨none, some offset⟩)
            = [.keyword .offset, Token.value (.int (Page.bound offset))] := by
          simp [limitTokens, hlone]
        rw [hwords, readSuffix, readCount_bound]
        exact ⟨_, rfl, fun rows hrows => drop_min_of_lt hrows offset⟩
      | afterLimit sentinel =>
        have hwords : Token.words (limitTokens p ⟨none, some offset⟩)
            = [.keyword .limit, .raw sentinel, .keyword .offset, Token.value (.int (Page.bound offset))] := by
          simp [limitTokens, hlone]
        have hsentinel : readLimit (ρ := ρ) p (.raw sentinel) = some id := if_pos hlone
        rw [hwords, readSuffix, readCount_bound, hsentinel]
        exact ⟨_, rfl, fun rows hrows => drop_min_of_lt hrows offset⟩
  | some limit =>
    cases offset with
    | none =>
      have hwords : Token.words (limitTokens p ⟨some limit, none⟩)
          = [.keyword .limit, Token.value (.int (Page.bound limit))] := by
        simp [limitTokens]
      rw [hwords, readSuffix, readLimit_bound]
      exact ⟨_, rfl, fun rows hrows => take_min_of_lt hrows limit⟩
    | some offset =>
      have hwords : Token.words (limitTokens p ⟨some limit, some offset⟩)
          = [.keyword .limit, Token.value (.int (Page.bound limit)), .keyword .offset,
            Token.value (.int (Page.bound offset))] := by
        simp [limitTokens]
      rw [hwords, readSuffix, readLimit_bound, readCount_bound]
      refine ⟨_, rfl, fun rows hrows => ?_⟩
      have hdropped : (rows.drop offset).length < 2 ^ 63 - 1 := by
        rw [List.length_drop]
        omega
      rw [drop_min_of_lt hrows]
      exact take_min_of_lt hdropped limit

/-- The first words of a SELECT. -/
def selectStart (s : Sections Nested) : List (Token Value) :=
  .keyword .select :: if s.distinct then [.space, .keyword .distinct] else []

/-- The shapes of a SELECT differ in what stands before the select list, behind it and at the end. -/
theorem selectTokens_shape {s : Sections Nested} {shape : Shape} {ts : List (Token Value)}
    (h : selectTokens t s shape = .ok ts) :
    ∃ items number body order, shape.numberTokens t s.orders = .ok number ∧
      shape.orderTokens t.profile s.orders = .ok order ∧
      ts = selectStart s ++ shape.topTokens ++ .space :: items ++ number ++ body
        ++ Token.sectionOf .orderBy order ∧
      ∀ shape' number' order', Shape.numberTokens t s.orders shape' = .ok number' →
        Shape.orderTokens t.profile s.orders shape' = .ok order' →
        selectTokens t s shape' = .ok (selectStart s ++ shape'.topTokens ++ .space :: items ++ number' ++ body
          ++ Token.sectionOf .orderBy order') := by
  obtain ⟨items, hitems, h⟩ := bind_eq_ok h
  obtain ⟨number, hnumber, h⟩ := bind_eq_ok h
  obtain ⟨source, hsource, h⟩ := bind_eq_ok h
  obtain ⟨joins, hjoins, h⟩ := bind_eq_ok h
  obtain ⟨filter, hfilter, h⟩ := bind_eq_ok h
  obtain ⟨groups, hgroups, h⟩ := bind_eq_ok h
  obtain ⟨having, hhaving, h⟩ := bind_eq_ok h
  obtain ⟨order, horder, h⟩ := bind_eq_ok h
  cases h
  refine ⟨items, number, source ++ joins.flatten ++ Token.sectionOf .where_ filter
    ++ Token.sectionOf .groupBy groups ++ Token.sectionOf .having having, order, hnumber, horder,
    by simp [selectStart], fun shape' number' order' hnumber' horder' => ?_⟩
  simp only [selectTokens, hitems, hnumber', hsource, hjoins, hfilter, hgroups, hhaving, horder', Bind.bind,
    Except.bind, Pure.pure, Except.pure]
  simp [selectStart]

/-- `TOP` stands behind the first words of a SELECT, and changes nothing else. -/
theorem readTop_selectTokens {s : Sections Nested} {n : Nat} {ts : List (Token Value)}
    (h : selectTokens t s (.top n) = .ok ts) :
    ∃ plain, selectTokens t s .plain = .ok plain ∧ Token.params ts = .int (Page.bound n) :: Token.params plain ∧
      Token.words plain ≠ Token.words ts ∧
      readTop (ρ := ρ) (Token.words plain) (Token.words ts) = some (List.take (min n (2 ^ 63 - 1))) := by
  obtain ⟨items, number, body, order, hnumber, horder, rfl, hshape⟩ := selectTokens_shape h
  cases hnumber
  have hcount : (readCount (Token.value (.int (Page.bound n)))).map (List.take (α := ρ))
      = some (List.take (min n (2 ^ 63 - 1))) := by
    rw [readCount_bound]
    rfl
  refine ⟨_, hshape .plain [] order rfl horder, ?_, fun heq => ?_, ?_⟩
  · cases hd : s.distinct <;> simp [selectStart, hd, Shape.topTokens]
  · have hlength := congrArg List.length heq
    simp [Shape.topTokens, Token.parenthesized] at hlength
    omega
  · cases hd : s.distinct <;> simp [selectStart, hd, Shape.topTokens, readTop, Token.parenthesized, hcount]

/-- The column of row numbers has the words of the order in it, and more. -/
theorem length_words_numberingTokens {orders : List (Term × Direction)} {number order : List (Token Value)}
    (h : numberingTokens t orders = .ok number) (horder : orderingTokens t.profile orders = .ok order) :
    (Token.words order).length + 2 ≤ (Token.words number).length := by
  obtain ⟨order', horder', h⟩ := bind_eq_ok h
  cases horder.symm.trans horder'
  cases h
  cases orders with
  | nil =>
    cases horder
    simp [numberingColumn, Token.commaSeparated, List.intercalate, Token.parenthesized]
  | cons first rest =>
    simp [numberingColumn, Token.parenthesized]
    omega

theorem length_words_sectionOf (k : Keyword) (body : List (Token Value)) :
    (Token.words (Token.sectionOf k body)).length ≤ (Token.words body).length + 1 := by
  unfold Token.sectionOf
  split
  · simp
  · simp

/-- The SELECT with a column of row numbers is longer than the one with its order. -/
theorem length_words_numbered {s : Sections Nested} {plain numbered : List (Token Value)}
    (hplain : selectTokens t s .plain = .ok plain) (hnumbered : selectTokens t s .numbered = .ok numbered) :
    (Token.words plain).length < (Token.words numbered).length := by
  obtain ⟨items, number, body, order, hnumber, horder, rfl, hshape⟩ := selectTokens_shape hplain
  obtain ⟨column, hcolumn⟩ : ∃ column, numberingTokens t s.orders = .ok column := by
    obtain ⟨items', number', body', order', hnumber', -⟩ := selectTokens_shape hnumbered
    obtain ⟨column, hcolumn, -⟩ := bind_eq_ok hnumber'
    exact ⟨column, hcolumn⟩
  have hnumber' : Shape.numberTokens t s.orders .numbered = .ok ([.symbol .comma, .space] ++ column) := by
    rw [Shape.numberTokens, hcolumn]
    rfl
  cases hnumbered.symm.trans (hshape .numbered _ [] hnumber' rfl)
  cases hnumber
  have hlength := length_words_numberingTokens hcolumn horder
  have hsection := length_words_sectionOf .orderBy order
  have hnil : Token.sectionOf .orderBy ([] : List (Token Value)) = [] := rfl
  simp only [hnil, Token.words_append, List.length_append, Token.words_nil, List.length_nil,
    Token.words_symbol, Token.words_space, List.length_cons, Shape.topTokens]
  omega

theorem isSpace_aliasToken (p : Profile) (name : String) :
    (p.aliasToken name : Token Value).isSpace = false := by
  unfold Profile.aliasToken Profile.segmentToken
  split
  · rfl
  · split <;> rfl

theorem words_tableAlias (name : String) : Token.words (t.profile.tableAlias name) = aliasWords t name := by
  unfold Profile.tableAlias aliasWords
  rw [Token.words_append, Token.words_cons (isSpace_aliasToken _ _)]
  split <;> rfl

theorem words_selectAllFrom (inner : List (Token Value)) :
    Token.words (selectAllFrom inner)
      = [.keyword .select, .symbol .star, .keyword .from] ++ Token.parenthesized (Token.words inner) := by
  simp [selectAllFrom]

theorem readWrapper_append {first ws : List (Token Value)} {page : Page}
    (hws : TestsPage (t.profile.aliasToken t.options.rowNumberAlias) page ws) :
    ∃ select : List ρ → List ρ, readWrapper t first (first ++ ws) = some select ∧ Keeps page select := by
  obtain ⟨test, hread, htest⟩ := hws
  rw [readWrapper, after?_append]
  refine ⟨keepNumbered test, ?_, fun rows hrows => keepNumbered_of_testsPage htest hrows⟩
  show (readTest _ ws).bind _ = _
  rw [hread]
  rfl

/-- A query around numbered rows keeps those with the numbers of the page. -/
theorem readWrapper_rowNumberPage {s : Sections Nested} {outermost : Bool} {ts : List (Token Value)}
    (hpage : page.isPartial = true) (h : rowNumberPage t s page outermost = .ok ts) :
    ∃ numbered rest, numberedRows t s = .ok numbered ∧
      Token.params ts = Token.params numbered ++ page.testValues ∧
      Token.words ts = wrapperWords (Token.words numbered) (aliasWords t t.options.wrapperAlias) ++ rest ∧
      TestsPage (t.profile.aliasToken t.options.rowNumberAlias) page rest := by
  obtain ⟨numbered, hnumbered, h⟩ := bind_eq_ok h
  have hspace := isSpace_aliasToken t.profile t.options.rowNumberAlias
  have hordinal : (t.profile.aliasToken t.options.rowNumberAlias : Token Value).param? = none :=
    param?_segmentToken t.profile _
  cases h
  split
  · refine ⟨numbered, _, hnumbered, ?_, ?_, testsPage_pageTest hspace hpage (.inr rfl)⟩
    · simp [params_selectAllFrom, params_pageTest hordinal]
    · simp [words_selectAllFrom, words_tableAlias, wrapperWords, Token.words_cons hspace]
  · refine ⟨numbered, _, hnumbered, ?_, ?_, testsPage_pageTest hspace hpage (.inl rfl)⟩
    · simp [params_selectAllFrom, params_pageTest hordinal]
    · simp [words_selectAllFrom, words_tableAlias, wrapperWords]

/-- The SELECT without a page is not the query around its numbered rows: that one has no `DISTINCT`, and
without it is longer. -/
theorem words_plain_ne_wrapper {s : Sections Nested} {plain numbered name rest : List (Token Value)}
    (hplain : selectTokens t s .plain = .ok plain) (hnumbered : numberedRows t s = .ok numbered) :
    Token.words plain ≠ wrapperWords (Token.words numbered) name ++ rest := by
  intro heq
  cases hd : s.distinct with
  | true =>
    obtain ⟨items, number, body, order, -, -, rfl, -⟩ := selectTokens_shape hplain
    simp [selectStart, hd, wrapperWords] at heq
  | false =>
    rw [numberedRows, if_neg (by simp [hd])] at hnumbered
    have hlength := length_words_numbered hplain hnumbered
    rw [heq] at hlength
    simp [wrapperWords, Token.parenthesized] at hlength
    omega

/-- A test of the page reads as itself by counting the rows that are kept, when none is skipped. -/
theorem readRowNum_pageTest {plain : List (Token Value)} (limit : Nat) :
    ∃ select : List ρ → List ρ,
      readRowNum plain (wrapperWords plain [] ++ Token.words (pageTest rowNumToken ⟨some limit, none⟩))
          = some select ∧
        Keeps ⟨some limit, none⟩ select := by
  have hwords : Token.words (pageTest rowNumToken ⟨some limit, none⟩)
      = [rowNumToken, .symbol .le, Token.value (.int (Page.bound limit))] := words_ordinalTest rfl .le _
  rw [readRowNum, after?_append, hwords]
  refine ⟨keepCounted (fun i => decide ((i : Int) ≤ (Page.bound limit).toInt)) 1, rfl, fun rows hrows => ?_⟩
  have htest : (fun i : Nat => decide ((i : Int) ≤ (Page.bound limit).toInt))
      = fun i => decide (i ≤ min limit (2 ^ 63 - 1)) := by
    funext i
    rw [Page.toInt_bound, Bool.eq_iff_iff]
    simp only [decide_eq_true_eq]
    omega
  rw [htest, keepCounted_le]
  exact take_min_of_lt hrows limit

/-- What a query around `plain` binds and keeps when it pages by `ROWNUM`: with an offset, by the numbers of
a query in between; without one, by counting. -/
structure ReadsRowNum (ρ : Type) (t : Target) (page : Page) (plain ts : List (Token Value)) : Prop where
  params : Token.params ts = Token.params plain ++ page.testValues
  words_ne : Token.words plain ≠ Token.words ts
  keeps : ∃ select : List ρ → List ρ,
    (readWrapper t (wrapperWords (rowNumWords t (Token.words plain)) []) (Token.words ts)).or
      (readRowNum (Token.words plain) (Token.words ts)) = some select ∧ Keeps page select

theorem readsRowNum_counted (plain : List (Token Value)) (limit : Nat) :
    ReadsRowNum ρ t ⟨some limit, none⟩ plain
      (selectAllFrom plain ++ Token.spaced .where_ ++ pageTest rowNumToken ⟨some limit, none⟩) := by
  have hrowNum : (rowNumToken : Token Value).param? = none := rfl
  have hwords : Token.words
      (selectAllFrom plain ++ Token.spaced .where_ ++ pageTest rowNumToken ⟨some limit, none⟩)
      = wrapperWords (Token.words plain) [] ++ Token.words (pageTest rowNumToken ⟨some limit, none⟩) := by
    simp [words_selectAllFrom, wrapperWords]
  have htest : (Token.words (pageTest rowNumToken ⟨some limit, none⟩)).length = 3 := by
    rw [pageTest, words_ordinalTest rfl]
    rfl
  refine ⟨by simp [params_selectAllFrom, params_pageTest hrowNum], fun heq => ?_, ?_⟩
  · have hlength := congrArg List.length (heq.trans hwords)
    simp [wrapperWords, Token.parenthesized] at hlength
    omega
  · rw [hwords, readWrapper, after?_of_length_lt]
    · exact readRowNum_pageTest limit
    · simp [wrapperWords, rowNumWords, aliasWords, Token.parenthesized, htest]
      omega

theorem readsRowNum_numbered (plain : List (Token Value)) (hpage : page.isPartial = true) :
    ReadsRowNum ρ t page plain
      (selectAllFrom ([.keyword .select, .space, t.profile.aliasToken t.options.wrapperAlias, .symbol .dot,
          .symbol .star, .symbol .comma, .space, rowNumToken] ++ Token.spaced .as
        ++ [t.profile.aliasToken t.options.rowNumberAlias] ++ Token.spaced .from ++ Token.parenthesized plain
        ++ t.profile.tableAlias t.options.wrapperAlias) ++ Token.spaced .where_
        ++ pageTest (t.profile.aliasToken t.options.rowNumberAlias) page) := by
  have hspace := isSpace_aliasToken t.profile
  have hordinal : (t.profile.aliasToken t.options.rowNumberAlias : Token Value).param? = none :=
    param?_segmentToken t.profile _
  have hwords (rest : List (Token Value)) :
      Token.words (selectAllFrom ([.keyword .select, .space, t.profile.aliasToken t.options.wrapperAlias,
          .symbol .dot, .symbol .star, .symbol .comma, .space, rowNumToken] ++ Token.spaced .as
          ++ [t.profile.aliasToken t.options.rowNumberAlias] ++ Token.spaced .from ++ Token.parenthesized plain
          ++ t.profile.tableAlias t.options.wrapperAlias) ++ Token.spaced .where_ ++ rest)
        = wrapperWords (rowNumWords t (Token.words plain)) [] ++ Token.words rest := by
    simp [words_selectAllFrom, words_tableAlias, wrapperWords, rowNumWords, rowNumToken,
      Token.words_cons (hspace _)]
  have htest := testsPage_pageTest (hspace t.options.rowNumberAlias) hpage (.inl rfl)
  rw [List.append_nil] at htest
  obtain ⟨select, hselect, hkeeps⟩ := readWrapper_append (ρ := ρ) htest
  refine ⟨by simp [params_selectAllFrom, params_pageTest hordinal, rowNumToken], fun heq => ?_, select, ?_, hkeeps⟩
  · have hlength := congrArg List.length (heq.trans (hwords _))
    simp [wrapperWords, rowNumWords, Token.parenthesized] at hlength
    omega
  · rw [hwords, hselect]
    rfl

theorem read_rowNumPage {s : Sections Nested} {ts : List (Token Value)} (hpage : page.isPartial = true)
    (h : rowNumPage t s page = .ok ts) :
    ∃ plain, selectTokens t s .plain = .ok plain ∧ ReadsRowNum ρ t page plain ts := by
  obtain ⟨plain, hplain, h⟩ := bind_eq_ok h
  obtain ⟨limit, offset⟩ := page
  cases offset with
  | none =>
    cases limit with
    | none => cases hpage
    | some limit =>
      cases h
      exact ⟨plain, hplain, readsRowNum_counted plain limit⟩
  | some offset =>
    cases h
    exact ⟨plain, hplain, readsRowNum_numbered plain hpage⟩

end

/-! ## Pages -/

/-- The numbers that a plan binds, before they are made to fit. -/
def Plan.bounds : Plan → List Nat
  | .whole => []
  | .limitOffset page => page.limit.toList ++ page.offset.toList
  | .top limit => [limit]
  | .rowNumber page | .rowNum page =>
    match page.offset, page.limit with
    | some offset, some limit => [offset + 1, offset + limit + 1]
    | some offset, none => [offset + 1]
    | none, some limit => [limit]
    | none, none => []

theorem Page.testValues_eq (page : Page) :
    page.testValues = (Plan.rowNumber page).bounds.map fun n => .int (bound n) := by
  obtain ⟨limit, offset⟩ := page
  cases limit <;> cases offset <;> simp [testValues, Plan.bounds, firstRow_eq, pastLastRow_eq]

section

variable {t : Target} {s : Sections Nested} {ts plain : List (Token Value)}

/-- A SELECT without its page as the reader is given it. -/
def plainWords (t : Target) (s : Sections Nested) : Option (List (Token Value)) :=
  (selectTokens t s .plain).toOption.map Token.words

/-- A SELECT with numbered rows as the reader is given it. -/
def numberedWords (t : Target) (s : Sections Nested) : Option (List (Token Value)) :=
  (numberedRows t s).toOption.map Token.words

theorem plainWords_eq (h : selectTokens t s .plain = .ok plain) :
    plainWords t s = some (Token.words plain) := by
  rw [plainWords, h]
  rfl

/-- What is read of a text that is not the SELECT without its page. -/
theorem readPage_of_words_ne (hplain : selectTokens t s .plain = .ok plain)
    (hne : Token.words plain ≠ Token.words ts) :
    readPage (ρ := ρ) t (plainWords t s) (numberedWords t s) ts
      = match t.profile.paging with
        | .limitOffset => (after? (Token.words plain) (Token.words ts)).bind (readSuffix t.profile)
        | .topCount => (readTop (Token.words plain) (Token.words ts)).or
          ((numberedWords t s).bind fun numbered =>
            readWrapper t (wrapperWords numbered (aliasWords t t.options.wrapperAlias)) (Token.words ts))
        | .rowNumber => (numberedWords t s).bind fun numbered =>
          readWrapper t (wrapperWords numbered (aliasWords t t.options.wrapperAlias)) (Token.words ts)
        | .rowNum => (readWrapper t (wrapperWords (rowNumWords t (Token.words plain)) []) (Token.words ts)).or
          (readRowNum (Token.words plain) (Token.words ts)) := by
  unfold readPage
  rw [plainWords_eq hplain, if_neg (by simpa using hne)]
  rfl

theorem readPage_limitTokens (hpaging : t.profile.paging = .limitOffset) {page : Page}
    (hpage : page.isPartial = true) (hplain : selectTokens t s .plain = .ok plain) :
    ∃ select : List ρ → List ρ,
      readPage t (plainWords t s) (numberedWords t s) (plain ++ limitTokens t.profile page) = some select ∧
        Keeps page select := by
  obtain ⟨select, hselect, hkeeps⟩ := readSuffix_limitTokens (ρ := ρ) t.profile hpage
  have hne : Token.words plain ≠ Token.words (plain ++ limitTokens t.profile page) := by
    intro heq
    rw [Token.words_append, List.self_eq_append_right] at heq
    rw [heq] at hselect
    cases hselect
  refine ⟨select, ?_, hkeeps⟩
  rw [readPage_of_words_ne hplain hne, hpaging, Token.words_append]
  dsimp only
  rw [after?_append]
  exact hselect

theorem readPage_rowNumberPage (hpaging : t.profile.paging = .topCount ∨ t.profile.paging = .rowNumber)
    {page : Page} (hpage : page.isPartial = true) {outermost : Bool}
    (h : rowNumberPage t s page outermost = .ok ts) :
    ∃ select : List ρ → List ρ,
      readPage t (plainWords t s) (numberedWords t s) ts = some select ∧ Keeps page select := by
  obtain ⟨numbered, rest, hnumbered, -, hwords, htest⟩ := readWrapper_rowNumberPage hpage h
  obtain ⟨select, hselect, hkeeps⟩ := readWrapper_append (ρ := ρ) htest
  have hne : plainWords t s ≠ some (Token.words ts) := by
    cases hplain : selectTokens t s .plain with
    | error e => simp [plainWords, hplain, Except.toOption]
    | ok plain =>
      rw [plainWords_eq hplain, hwords]
      simpa using words_plain_ne_wrapper hplain hnumbered
  have hnumbered : numberedWords t s = some (Token.words numbered) := by
    rw [numberedWords, hnumbered]
    rfl
  refine ⟨select, ?_, hkeeps⟩
  unfold readPage
  rw [if_neg hne, hwords, hnumbered]
  obtain hpaging | hpaging := hpaging <;> rw [hpaging]
  · -- The words of a wrapper have no `TOP` in the second or the third place.
    have htop : ((plainWords t s).bind fun plain => readTop (ρ := ρ) plain
        (wrapperWords (Token.words numbered) (aliasWords t t.options.wrapperAlias) ++ rest)) = none := by
      cases plainWords t s <;> rfl
    show Option.or (Option.bind _ _) _ = _
    rw [htop]
    exact hselect
  · exact hselect

/-- Each construct, read, keeps the rows of the page. -/
theorem exists_readPage {outermost : Bool} (h : pagedTokens t s outermost = .ok ts) :
    ∃ select : List ρ → List ρ,
      readPage t (plainWords t s) (numberedWords t s) ts = some select ∧ Keeps s.page select := by
  unfold pagedTokens at h
  obtain ⟨hpage, hplan⟩ | ⟨hpage, ⟨hpaging, hplan⟩ | ⟨hpaging, limit, hlimit, hplan⟩ | ⟨hpaging, hplan⟩ |
      ⟨hpaging, hplan⟩⟩ :=
    Plan.ofPage_cases t.profile.paging s.page <;> rw [hplan] at h
  case inl =>
    refine ⟨id, if_pos (plainWords_eq h), fun rows _ => ?_⟩
    have hnone : s.page.limit = none ∧ s.page.offset = none := by simpa [Page.isPartial] using hpage
    simp [Page.cut, hnone]
  case inr.inl =>
    obtain ⟨plain, hplain, rfl⟩ := map_eq_ok h
    exact readPage_limitTokens hpaging hpage hplain
  case inr.inr.inl =>
    obtain ⟨plain, hplain, -, hne, hread⟩ := readTop_selectTokens (ρ := ρ) h
    refine ⟨List.take (min limit (2 ^ 63 - 1)), ?_, fun rows hrows => ?_⟩
    · rw [readPage_of_words_ne hplain hne, hpaging]
      dsimp only
      rw [hread]
      rfl
    · rw [hlimit]
      exact take_min_of_lt hrows limit
  case inr.inr.inr.inl => exact readPage_rowNumberPage hpaging hpage h
  case inr.inr.inr.inr =>
    obtain ⟨plain, hplain, hreads⟩ := read_rowNumPage (ρ := ρ) hpage h
    obtain ⟨select, hselect, hkeeps⟩ := hreads.keeps
    refine ⟨select, ?_, hkeeps⟩
    rw [readPage_of_words_ne hplain hreads.words_ne, hpaging]
    exact hselect

/-- The values that a page binds stand in front of those of the rows or behind them. -/
theorem exists_bounds {outermost : Bool} (h : pagedTokens t s outermost = .ok ts) :
    ∃ rest,
      Token.params ts
          = (Plan.ofPage t.profile.paging s.page).bounds.map (fun n => .int (Page.bound n)) ++ rest ∨
        Token.params ts
          = rest ++ (Plan.ofPage t.profile.paging s.page).bounds.map fun n => .int (Page.bound n) := by
  unfold pagedTokens at h
  obtain ⟨hpage, hplan⟩ | ⟨hpage, ⟨-, hplan⟩ | ⟨-, limit, -, hplan⟩ | ⟨-, hplan⟩ | ⟨-, hplan⟩⟩ :=
    Plan.ofPage_cases t.profile.paging s.page <;> rw [hplan] at h ⊢
  case inl => exact ⟨Token.params ts, .inl rfl⟩
  case inr.inl =>
    obtain ⟨plain, -, rfl⟩ := map_eq_ok h
    refine ⟨Token.params plain, .inr ?_⟩
    rw [Token.params_append, params_limitTokens]
    rfl
  case inr.inr.inl =>
    obtain ⟨plain, -, hparams, -⟩ := readTop_selectTokens (ρ := Unit) h
    exact ⟨Token.params plain, .inl hparams⟩
  case inr.inr.inr.inl =>
    obtain ⟨numbered, rest, -, hparams, -⟩ := readWrapper_rowNumberPage hpage h
    exact ⟨Token.params numbered, .inr (by rw [hparams, Page.testValues_eq])⟩
  case inr.inr.inr.inr =>
    obtain ⟨plain, -, hreads⟩ := read_rowNumPage (ρ := Unit) hpage h
    exact ⟨Token.params plain, .inr (by rw [hreads.params, Page.testValues_eq]; rfl)⟩

end

/-! ## Numbered rows -/

/-- The words of a column of row numbers in an order, under the alias that the tests of row numbers use. -/
def numberingWords (t : Target) (order : List (Token Value)) : List (Token Value) :=
  [.function "ROW_NUMBER", .symbol .lparen, .symbol .rparen, .keyword .over]
    ++ Token.parenthesized (.keyword .orderBy :: order)
    ++ [.keyword .as, t.profile.aliasToken t.options.rowNumberAlias]

theorem words_numberingTokens {t : Target} {orders : List (Term × Direction)} {ts : List (Token Value)}
    (h : numberingTokens t orders = .ok ts) : ∃ order, Token.words ts = numberingWords t order := by
  obtain ⟨order, -, h⟩ := bind_eq_ok h
  cases h
  refine ⟨Token.words (if orders.isEmpty then Token.parenthesized [.keyword .select, .space, .litInt 0] else order), ?_⟩
  simp [numberingWords, numberingColumn, aliasTokens, Token.parenthesized, Token.words_cons (isSpace_aliasToken _ _)]

/-- Numbered rows are selected with a column of row numbers, the last one in front of `FROM`. -/
theorem exists_numberingWords {t : Target} {s : Sections Nested} {rows : List (Token Value)}
    (h : numberedRows t s = .ok rows) :
    ∃ front order back, Token.words rows
      = .keyword .select :: front ++ .symbol .comma :: numberingWords t order ++ .keyword .from :: back := by
  unfold numberedRows at h
  split at h
  · obtain ⟨number, hnumber, h⟩ := bind_eq_ok h
    obtain ⟨inner, -, h⟩ := bind_eq_ok h
    cases h
    obtain ⟨order, horder⟩ := words_numberingTokens hnumber
    exact ⟨[.symbol .star], order, _, by simp [horder]; rfl⟩
  · obtain ⟨items, -, h⟩ := bind_eq_ok h
    obtain ⟨number, hnumber, h⟩ := bind_eq_ok h
    obtain ⟨source, hsource, h⟩ := bind_eq_ok h
    obtain ⟨joins, -, h⟩ := bind_eq_ok h
    obtain ⟨filter, -, h⟩ := bind_eq_ok h
    obtain ⟨groups, -, h⟩ := bind_eq_ok h
    obtain ⟨having, -, h⟩ := bind_eq_ok h
    obtain ⟨order, -, h⟩ := bind_eq_ok h
    cases h
    obtain ⟨column, hcolumn, hnumber⟩ := bind_eq_ok hnumber
    cases hnumber
    obtain ⟨order, horder⟩ := words_numberingTokens hcolumn
    obtain ⟨tokens, rfl⟩ : ∃ tokens, source = Token.spaced .from ++ tokens := by
      cases hs : s.source with
      | none =>
        rw [hs] at hsource
        cases hsource
      | some inner =>
        rw [hs] at hsource
        obtain ⟨tokens, -, h⟩ := bind_eq_ok hsource
        exact ⟨tokens, (Except.ok.inj h).symm⟩
    refine ⟨Token.words (if s.distinct then [.space, .keyword .distinct] else []) ++ Token.words items, order, ?_⟩
    simp [Shape.topTokens, horder]

/-! ## Paged queries -/

/-- Every construct that pages a SELECT keeps the rows that the clauses ask for, whatever the rows are; and the
numbered rows, where it has any, carry their numbers under the alias that its tests compare. The values that it
binds are the numbers of its plan, and none of them wraps. -/
theorem readPage_emitPaged {t : Target} {clauses : Clauses Query} {s : Sections Query} {outermost : Bool}
    {c after : Context} {ts : List (Token Nat)} (hs : Sections.ofClauses clauses = .ok s) (hc : 0 < c.depth)
    (h : (emitPaged t (s.map (Query.subquery t)) outermost).run c = .ok (ts, after)) :
    (∃ select : List ρ → List ρ,
      readPage t ((emitSelect t (s.map (Query.subquery t)) .plain).words c)
          ((emitNumberedRows t (s.map (Query.subquery t))).words c) (after.bindings.restore ts) = some select ∧
        ∀ rows, rows.length < 2 ^ 63 - 1 → select rows = clauses.cut rows) ∧
    (∀ numbered, (emitNumberedRows t (s.map (Query.subquery t))).words c = some numbered →
      ∃ front order back,
        numbered = .keyword .select :: front ++ .symbol .comma :: numberingWords t order ++ .keyword .from :: back) ∧
    ∃ rest bound,
      (after.bindings.values.toList = c.bindings.values.toList ++ (bound ++ rest) ∨
        after.bindings.values.toList = c.bindings.values.toList ++ (rest ++ bound)) ∧
      List.Forall₂ (fun (n : Nat) v => ∃ b : Int64, v = .int b ∧ b.toInt = min n (2 ^ 63 - 1))
        (Plan.ofPage t.profile.paging clauses.page).bounds bound := by
  have hnested : ∀ q ∈ s.selectNested, (q.subquery t).Writes (q.nested t) := fun q _ => q.writes t
  have hplain := (writes_select (t := t) .plain hnested).words hc
  have hnumbered := (writes_numberedRows (t := t) hnested).words hc
  obtain ⟨tokens, htokens, hnumber, hrestore⟩ := (writes_paged outermost hnested).exists_tokens hc h
  have hpage : (s.map (Query.nested t)).page = clauses.page := by
    obtain ⟨items, -, rfl⟩ := map_eq_ok hs
    rfl
  refine ⟨?keeps, fun numbered hwords => ?carries, ?binds⟩
  case keeps =>
    obtain ⟨select, hselect, hkeeps⟩ := exists_readPage (ρ := ρ) htokens
    rw [hplain, hnumbered, hrestore]
    refine ⟨select, hselect, fun rows hrows => ?_⟩
    rw [hkeeps rows hrows, clauses.cut_eq, hpage]
  case carries =>
    rw [hnumbered] at hwords
    cases hrows : numberedRows t (s.map (Query.nested t)) with
    | error e =>
      rw [hrows] at hwords
      cases hwords
    | ok rows =>
      rw [hrows] at hwords
      cases hwords
      exact exists_numberingWords hrows
  case binds =>
    obtain ⟨rest, hbounds⟩ := exists_bounds htokens
    rw [hpage] at hbounds
    have hafter : after.bindings.values.toList = c.bindings.values.toList ++ Token.params tokens := by
      have hsnd : after = c.bindAll (Token.params tokens) := (congrArg Prod.snd hnumber).symm
      simp [hsnd, Context.bindAll]
    refine ⟨rest, _, hbounds.imp (fun h => hafter.trans (congrArg _ h)) fun h => hafter.trans (congrArg _ h), ?_⟩
    rw [List.forall₂_map_right_iff]
    exact List.forall₂_same.2 fun n _ => ⟨Page.bound n, rfl, by simpa using Page.toInt_bound n⟩

/-- A page after the first two rows, whose first limit is overruled. -/
def laterPage : Clauses Query :=
  [.from (.table "users" none), .orderBy (.column "id") .asc, .limit 7, .limit 3, .offset 2]

theorem readPage_emitPaged_laterPage :
    ∃ s ts after, Sections.ofClauses laterPage = .ok s ∧
      (emitPaged ({} : Compiler).target (s.map (Query.subquery ({} : Compiler).target)) true).run ⟨{}, 1⟩
        = .ok (ts, after) ∧
      ∃ select : List Nat → List Nat,
        readPage ({} : Compiler).target
            ((emitSelect ({} : Compiler).target (s.map (Query.subquery ({} : Compiler).target)) .plain).words ⟨{}, 1⟩)
            ((emitNumberedRows ({} : Compiler).target (s.map (Query.subquery ({} : Compiler).target))).words ⟨{}, 1⟩)
            (after.bindings.restore ts) = some select ∧
          select [10, 20, 30, 40, 50, 60] = [30, 40, 50] := by
  obtain ⟨⟨select, hread, hselect⟩, -⟩ :=
    readPage_emitPaged (ρ := Nat) (show Sections.ofClauses laterPage = .ok _ from rfl) (show 0 < 1 by decide)
      (show (emitPaged ({} : Compiler).target _ true).run ⟨{}, 1⟩ = .ok _ from rfl)
  exact ⟨_, _, _, rfl, rfl, select, hread, hselect _ (by decide)⟩

end QueryCompiler
