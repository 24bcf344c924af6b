-- SUMMARY: The number of columns that a statement delivers, read from its tokens, and that it is the number of its items and the row numbers where these come along.
import QueryCompiler.Proofs.Delimiting
import QueryCompiler.Query.Builder

/-!
# Delivered columns

A query in an `IN` list, a comparison or a set operation has to deliver the right
number of columns. This module reads that number from the tokens of a statement:
an item of the select list delivers one column, and a star all the columns of the
query that it is selected from. A page that is cut out by row numbers has them as
a further column, in a derived table of which everything is selected.
-/

namespace QueryCompiler

/-! ## Reading columns -/

/-- A text at one parenthesis level: a token, whatever its parameter, or parentheses with the number of
columns that a statement in them delivers. -/
inductive Element where
  | token (t : Token Unit)
  | group (columns : Option Nat)
deriving DecidableEq, Repr

namespace Element

def comma : Element :=
  .token (.symbol .comma)

def star : Element :=
  .token (.symbol .star)

def dot : Element :=
  .token (.symbol .dot)

def keyword (k : Keyword) : Element :=
  .token (.keyword k)

/-- An entry of a select list that stands for more than one column: `*`, or `*` behind a dot. -/
def isStar (entry : List Element) : Bool :=
  entry.getLast? = some star &&
    (entry.dropLast = [] || entry.dropLast.getLast? = some dot)

/-- The columns of the entries of a select list, when a star stands for `source` of them. -/
def entryColumns (source : Option Nat) : List (List Element) → Option Nat
  | [] => some 0
  | entry :: rest => do
    let columns ← if isStar entry then source else some 1
    let others ← entryColumns source rest
    return columns + others

/-- What follows `SELECT` without `DISTINCT` and `TOP`. -/
def dropModifiers : List Element → List Element
  | .token (.keyword .distinct) :: .token (.keyword .top) :: .group _ :: rest => rest
  | .token (.keyword .distinct) :: rest => rest
  | .token (.keyword .top) :: .group _ :: rest => rest
  | rest => rest

/-- The columns that a star stands for: those of a query in parentheses that nothing is joined to. -/
def sourceColumns : List Element → Option Nat
  | .token (.keyword .from) :: .group columns :: rest => if keyword .join ∈ rest then none else columns
  | _ => none

/-- What follows the common table expressions. -/
def dropCtes : List Element → List Element
  | .token _ :: .token (.keyword .as) :: .group _ :: .token (.symbol .comma) :: rest => dropCtes rest
  | .token _ :: .token (.keyword .as) :: .group _ :: rest => rest
  | rest => rest

/-- The columns of a SELECT or of an operand in parentheses. -/
def selectColumns : List Element → Option Nat
  | .token (.keyword .select) :: rest =>
    let isList (e : Element) : Bool := e ≠ keyword .from
    entryColumns (sourceColumns (rest.dropWhile isList)) ((dropModifiers (rest.takeWhile isList)).splitOn comma)
  | .group columns :: _ => columns
  | _ => none

/-- The columns of a statement. Those of a set operation are the columns of its first operand. -/
def columns : List Element → Option Nat
  | .token (.keyword .with_) :: rest => selectColumns (dropCtes rest)
  | rest => selectColumns rest

/-- The elements of a text. The reader has read `here` at its own level and stands inside the levels
`around`, the innermost first. -/
def readFrom {α : Type} (here : List Element) (around : List (List Element)) : List (Token α) → List Element
  | [] => here
  | .space :: rest => readFrom here around rest
  | .symbol .lparen :: rest => readFrom [] (here :: around) rest
  | .symbol .rparen :: rest =>
    match around with
    | [] => readFrom here [] rest
    | outer :: around => readFrom (outer ++ [.group (columns here)]) around rest
  | t :: rest => readFrom (here ++ [.token (t.map fun _ => ())]) around rest

end Element

/-- The number of columns that a statement delivers, if its tokens tell. -/
def Token.columns {α : Type} (ts : List (Token α)) : Option Nat :=
  Element.columns (Element.readFrom [] [] ts)

/-- Parameters deliver what they do whatever their numbers. -/
theorem Token.columns_renumber {α : Type} (n : Nat) (ts : List (Token α)) :
    columns (renumber n ts) = columns ts := by
  have hfrom : ∀ here around n,
      Element.readFrom here around (renumber n ts) = Element.readFrom here around ts := by
    induction ts with
    | nil => exact fun _ _ _ => rfl
    | cons t rest ih =>
      intro here around n
      cases t with
      | symbol s =>
        cases s with
        | rparen => cases around <;> exact ih _ _ _
        | _ => exact ih _ _ _
      | _ => exact ih _ _ _
  exact congrArg Element.columns (hfrom [] [] n)

/-! ## Elements of tokens -/

variable {α : Type} {es es' : List Element} {a b ts : List (Token α)}

/-- The tokens are read as these elements, wherever they stand. -/
def Reads (es : List Element) (ts : List (Token α)) : Prop :=
  ∀ here around rest,
    Element.readFrom here around (ts ++ rest) = Element.readFrom (here ++ es) around rest

namespace Reads

theorem columns_eq (h : Reads es ts) : Token.columns ts = Element.columns es := by
  have hread := h [] [] []
  rw [List.append_nil] at hread
  rw [Token.columns, hread]
  rfl

theorem nil : Reads [] ([] : List (Token α)) := by
  intro here around rest
  rw [List.append_nil, List.nil_append]

theorem space : Reads [] [(.space : Token α)] := by
  intro here around rest
  rw [List.append_nil]
  rfl

theorem append (ha : Reads es a) (hb : Reads es' b) : Reads (es ++ es') (a ++ b) := by
  intro here around rest
  rw [List.append_assoc, ha, hb, List.append_assoc]

theorem keyword (k : Keyword) : Reads [.keyword k] [(.keyword k : Token α)] :=
  fun _ _ _ => rfl

theorem comma : Reads [.comma] [(.symbol .comma : Token α)] :=
  fun _ _ _ => rfl

theorem star : Reads [.star] [(.symbol .star : Token α)] :=
  fun _ _ _ => rfl

theorem dot : Reads [.dot] [(.symbol .dot : Token α)] :=
  fun _ _ _ => rfl

/-- A token without a parenthesis is an element or, if it is a space, nothing. -/
theorem exists_plain {t : Token α} (h : t.isPlain = true) : ∃ es, Reads es [t] := by
  cases t with
  | space => exact ⟨[], space⟩
  | symbol s =>
    cases s with
    | lparen | rparen => cases h
    | _ => exact ⟨[_], fun _ _ _ => rfl⟩
  | _ => exact ⟨[_], fun _ _ _ => rfl⟩

theorem spaced (k : Keyword) : Reads [.keyword k] (Token.spaced k : List (Token α)) :=
  (space.append (keyword k)).append space

theorem parenthesized (h : Reads es ts) : Reads [.group (Element.columns es)] (Token.parenthesized ts) := by
  intro here around rest
  have hinner := h [] (here :: around) (.symbol .rparen :: rest)
  rw [Token.parenthesized, List.append_assoc, List.cons_append, Element.readFrom]
  exact hinner

end Reads

/-- A phrase is read as elements: its parentheses match. -/
theorem Phrase.exists_reads {p : Profile} {F : Fragment → Prop} {K : Keyword → Bool}
    {ts : List (Token Value)} (h : Phrase p F K ts) : ∃ es, Reads es ts := by
  have happend {a b : List (Token Value)} (ha : ∃ es, Reads es a) (hb : ∃ es, Reads es b) :
      ∃ es, Reads es (a ++ b) := by
    obtain ⟨es, ha⟩ := ha
    obtain ⟨es', hb⟩ := hb
    exact ⟨es ++ es', ha.append hb⟩
  have hplain {t : Token Value} (ht : t.isPlain = true) : ∃ es, Reads es [t] := Reads.exists_plain ht
  have henclosed {a : List (Token Value)} (ha : ∃ es, Reads es a) : ∃ es, Reads es (Token.parenthesized a) := by
    obtain ⟨es, ha⟩ := ha
    exact ⟨_, ha.parenthesized⟩
  induction h with
  | word h => exact hplain h.isPlain
  | @keyword K k h => exact ⟨_, .keyword k⟩
  | @fragment K f tokens hf h =>
    have htokens := Fragment.isPlain_of_mem_tokens h
    clear h
    induction tokens with
    | nil => exact ⟨[], .nil⟩
    | cons t rest ih =>
      rw [List.forall_mem_cons] at htokens
      exact happend (hplain htokens.1) (ih htokens.2)
  | spaced _ _ iha ihb | dotted _ _ iha ihb => exact happend iha (happend (hplain rfl) ihb)
  | listed _ _ iha ihb => exact happend iha (happend (hplain rfl) (happend (hplain rfl) ihb))
  | enclosed _ ih => exact henclosed ih
  | call _ => exact happend (hplain rfl) (henclosed ⟨[], .nil⟩)
  | applied _ _ ih => exact happend (hplain rfl) (henclosed ih)

theorem Tail.exists_reads {p : Profile} {F : Fragment → Prop} {K : Keyword → Bool} {ts : List (Token Value)}
    (h : Tail p F K ts) : ∃ es, Reads es ts := by
  obtain rfl | ⟨a, ha, rfl⟩ := h
  · exact ⟨[], .nil⟩
  · obtain ⟨es, hread⟩ := ha.exists_reads
    exact ⟨[] ++ es, Reads.space.append hread⟩

/-! ## Entries of a select list -/

namespace Element

/-- Neither a keyword nor a comma. -/
def isItem : Element → Bool
  | .token (.keyword _) | .token (.symbol .comma) => false
  | _ => true

/-- The elements of one entry of a select list. -/
structure IsEntry (es : List Element) : Prop where
  ne_nil : es ≠ []
  begins : ∀ k, es.head? ≠ some (.keyword k)
  notComma : .comma ∉ es
  notFrom : .keyword .from ∉ es

theorem IsEntry.of_items {es : List Element} (hne : es ≠ []) (h : ∀ e ∈ es, e.isItem = true) : IsEntry es where
  ne_nil := hne
  begins := by
    intro k hk
    cases h _ (List.mem_of_head? hk)
  notComma := by
    intro hmem
    cases h _ hmem
  notFrom := by
    intro hmem
    cases h _ hmem

theorem IsEntry.append {es es' : List Element} (h : IsEntry es) (hcomma : .comma ∉ es')
    (hfrom : .keyword .from ∉ es') : IsEntry (es ++ es') where
  ne_nil := by simp [h.ne_nil]
  begins := by
    intro k
    rw [List.head?_append_of_ne_nil _ h.ne_nil]
    exact h.begins k
  notComma := by simp [h.notComma, hcomma]
  notFrom := by simp [h.notFrom, hfrom]

/-- The elements of `AS` and an alias. -/
def aliased (name : Element) : List Element :=
  [.keyword .as, name]

theorem IsEntry.aliased {es : List Element} {name : Element} (h : IsEntry es) (hname : name.isItem = true) :
    IsEntry (es ++ aliased name) := by
  refine h.append ?_ ?_ <;>
    · intro hmem
      simp only [Element.aliased, List.mem_cons, List.not_mem_nil, or_false] at hmem
      rcases hmem with hmem | rfl
      · cases hmem
      · cases hname

/-- An entry with an alias is no star, whatever the alias is. -/
theorem isStar_aliased (es : List Element) (name : Element) : isStar (es ++ aliased name) = false := by
  have hdrop : (es ++ aliased name).dropLast = es ++ [.keyword .as] := by
    rw [List.dropLast_append_of_ne_nil (by simp [aliased])]
    rfl
  rw [isStar, hdrop, List.getLast?_concat]
  simp [keyword, dot]

/-! ### The columns of a SELECT -/

/-- The elements of `DISTINCT` and `TOP`. -/
def modifiers (distinct : Bool) (top : Option (Option Nat)) : List Element :=
  (if distinct then [.keyword .distinct] else []) ++
    match top with
    | some count => [.keyword .top, .group count]
    | none => []

theorem dropModifiers_append {distinct : Bool} {top : Option (Option Nat)} {es : List Element}
    (h : ∀ k, es.head? ≠ some (.keyword k)) : dropModifiers (modifiers distinct top ++ es) = es := by
  cases es with
  | nil => cases distinct <;> cases top <;> rfl
  | cons e rest =>
    cases e with
    | group => cases distinct <;> cases top <;> rfl
    | token t =>
      cases t with
      | keyword k => exact absurd rfl (h k)
      | _ => cases distinct <;> cases top <;> rfl

theorem notMem_intercalate {e : Element} (he : e ≠ comma) {entries : List (List Element)}
    (h : ∀ entry ∈ entries, e ∉ entry) : e ∉ [comma].intercalate entries := by
  induction entries with
  | nil => simp [List.intercalate]
  | cons entry rest ih =>
    cases rest with
    | nil => simpa [List.intercalate] using h
    | cons next rest =>
      rw [List.forall_mem_cons] at h
      rw [List.intercalate_cons_cons]
      simp [h.1, ih h.2, he]

/-- A list begins as its first entry does. -/
theorem head?_intercalate {entries : List (List Element)} (hne : entries ≠ [])
    (h : ∀ entry ∈ entries, IsEntry entry) (k : Keyword) :
    ([comma].intercalate entries).head? ≠ some (.keyword k) := by
  cases entries with
  | nil => exact absurd rfl hne
  | cons entry rest =>
    have hentry := h entry List.mem_cons_self
    cases rest with
    | nil => simpa [List.intercalate] using hentry.begins k
    | cons next rest =>
      rw [List.intercalate_cons_cons, List.append_assoc, List.head?_append_of_ne_nil _ hentry.ne_nil]
      exact hentry.begins k

theorem selectColumns_eq (distinct : Bool) (top : Option (Option Nat)) {entries : List (List Element)}
    (hne : entries ≠ []) (h : ∀ entry ∈ entries, IsEntry entry) (rest : List Element) :
    selectColumns (.keyword .select :: (modifiers distinct top ++ [comma].intercalate entries
        ++ .keyword .from :: rest))
      = entryColumns (sourceColumns (.keyword .from :: rest)) entries := by
  have hlist : .keyword .from ∉ modifiers distinct top ++ [comma].intercalate entries := by
    have hentries := notMem_intercalate (e := .keyword .from) (by decide)
      fun entry hentry => (h entry hentry).notFrom
    have hmodifiers : .keyword .from ∉ modifiers distinct top := by
      cases distinct <;> cases top <;> simp [modifiers, keyword]
    simp [hentries, hmodifiers]
  have hall : ∀ e ∈ modifiers distinct top ++ [comma].intercalate entries,
      decide (e ≠ keyword .from) = true := by
    intro e he
    rw [decide_eq_true_iff]
    rintro rfl
    exact hlist he
  rw [keyword, selectColumns, List.takeWhile_append_of_pos hall, List.dropWhile_append_of_pos hall,
    List.takeWhile_cons_of_neg (by simp [keyword]), List.dropWhile_cons_of_neg (by simp [keyword]),
    List.append_nil, dropModifiers_append (head?_intercalate hne h),
    List.splitOn_intercalate comma (fun entry hentry => (h entry hentry).notComma) hne]

/-- Entries that are no stars deliver one column each. -/
theorem entryColumns_eq_length {source : Option Nat} {entries : List (List Element)}
    (h : ∀ entry ∈ entries, isStar entry = false) : entryColumns source entries = some entries.length := by
  induction entries with
  | nil => rfl
  | cons entry rest ih =>
    rw [List.forall_mem_cons] at h
    rw [entryColumns, h.1, ih h.2, List.length_cons, Nat.add_comm]
    rfl

/-- A star stands for the columns of the query that it is selected from, also beside a further column. -/
theorem selectColumns_star {all : List Element} {others : List (List Element)} {n : Nat} {rest : List Element}
    (hall : IsEntry all) (hstar : isStar all = true) (hothers : ∀ entry ∈ others, IsEntry entry)
    (hsingle : ∀ entry ∈ others, isStar entry = false) (hrest : .keyword .join ∉ rest) :
    selectColumns (.keyword .select :: ([comma].intercalate (all :: others)
      ++ .keyword .from :: .group (some n) :: rest)) = some (n + others.length) := by
  have hcolumns := selectColumns_eq false none (List.cons_ne_nil all others)
    (List.forall_mem_cons.2 ⟨hall, hothers⟩) (.group (some n) :: rest)
  have hsource : sourceColumns (.keyword .from :: .group (some n) :: rest) = some n := if_neg hrest
  refine hcolumns.trans ?_
  rw [entryColumns, hstar, if_pos rfl, hsource, entryColumns_eq_length hsingle]
  rfl

end Element

/-! ## Emitted entries -/

section

variable {p : Profile} {F : Fragment → Prop}

theorem reads_segmentToken (p : Profile) (cs : List Char) :
    Reads [.token (p.segmentToken cs)] [(p.segmentToken cs : Token α)] := by
  unfold Profile.segmentToken
  split
  · exact fun _ _ _ => rfl
  · split <;> exact fun _ _ _ => rfl

theorem isItem_segmentToken (p : Profile) (cs : List Char) :
    (Element.token (p.segmentToken cs)).isItem = true := by
  unfold Profile.segmentToken
  split
  · rfl
  · split <;> rfl

theorem reads_reference (p : Profile) (name : String) :
    Reads ((p.reference name).map .token) (p.reference name : List (Token α)) := by
  unfold Profile.reference
  induction p.quotes.split (Text.trim name.toList) with
  | nil => exact .nil
  | cons cs rest ih =>
    cases rest with
    | nil => exact reads_segmentToken p _
    | cons next rest =>
      exact (reads_segmentToken p _).append (Reads.dot.append ih)

theorem isEntry_reference (p : Profile) (name : String) :
    Element.IsEntry ((p.reference name).map .token) := by
  have hsegments : p.quotes.split (Text.trim name.toList) ≠ [] := p.quotes.splitFrom_ne_nil .outside _
  unfold Profile.reference
  refine .of_items ?ne (List.forall_mem_map.2 ?items)
  case ne =>
    obtain ⟨cs, rest, hsplit⟩ := List.exists_cons_of_ne_nil hsegments
    rw [hsplit]
    cases rest <;> simp
  clear hsegments
  induction p.quotes.split (Text.trim name.toList) with
  | nil => simp
  | cons cs rest ih =>
    cases rest with
    | nil => exact List.forall_mem_singleton.2 (isItem_segmentToken p _)
    | cons next rest =>
      exact List.forall_mem_cons.2 ⟨isItem_segmentToken p _, List.forall_mem_cons.2 ⟨rfl, ih⟩⟩

/-- The tokens of an entry of a select list that is no star. -/
def IsColumn (ts : List (Token Value)) : Prop :=
  ∃ es, Reads es ts ∧ Element.IsEntry es ∧ Element.isStar es = false

theorem isColumn_aliased {es : List Element} {ts : List (Token Value)} (hread : Reads es ts)
    (h : Element.IsEntry es) (name : String) : IsColumn (ts ++ aliasTokens p (some name)) :=
  ⟨es ++ Element.aliased (.token (p.aliasToken name)),
    hread.append ((Reads.spaced .as).append (reads_segmentToken p _)), h.aliased (isItem_segmentToken p _),
    Element.isStar_aliased es _⟩

/-- A call and what follows it. -/
theorem reads_call {f : String} {es : List Element} {ts : List (Token Value)} (h : Reads es ts) :
    Reads [.token (.function f), .group (Element.columns es)] (.function f :: Token.parenthesized ts) := by
  have hfunction : Reads [.token (.function f)] [(.function f : Token Value)] := fun _ _ _ => rfl
  exact hfunction.append h.parenthesized

end

/-- An entry that delivers a single column: no star and nothing written by hand. -/
def Selection.isSingle {σ : Type} (p : Profile) : Selection σ → Bool
  | .column c => (p.reference c.qualifiedName : List (Token Unit)).getLast? ≠ some (.symbol .star)
  | .raw _ => false
  | .aggregate .. | .subquery .. => true

section

variable {p : Profile} {F : Fragment → Prop} {t : Target} {s : Sections Nested} {ts : List (Token Value)}

theorem Selection.isColumn_tokens {item : Selection Nested} (hn : ∀ n ∈ item.nested, n.IsPhrase p F)
    (hsingle : item.isSingle p = true) (h : item.tokens p = .ok ts) : IsColumn ts := by
  cases item with
  | raw fragment => cases hsingle
  | column c =>
    obtain ⟨-, -, h⟩ := bind_eq_ok h
    cases h
    have hread := reads_reference (α := Value) p c.qualifiedName
    have hentry := isEntry_reference p c.qualifiedName
    cases c.aliasName with
    | some name => exact isColumn_aliased hread hentry name
    | none =>
      refine ⟨_, by simpa [aliasTokens] using hread, hentry, ?_⟩
      have hlast : ((p.reference c.qualifiedName).map Element.token).getLast? ≠ some .star := by
        rw [List.getLast?_map]
        intro h
        obtain ⟨last, hlast, heq⟩ := Option.map_eq_some_iff.1 h
        cases heq
        exact of_decide_eq_true hsingle hlast
      rw [Element.isStar, decide_eq_false hlast, Bool.false_and]
  | aggregate function name aliasName =>
    obtain ⟨column, hcolumn, h⟩ := bind_eq_ok h
    cases h
    obtain ⟨es, hread⟩ := (phrase_checkedReference (F := F) (K := Keyword.any) hcolumn).exists_reads
    have hcall := reads_call (f := function.sqlName) hread
    have hentry : Element.IsEntry [.token (.function function.sqlName), .group (Element.columns es)] :=
      .of_items (by simp) (by simp [Element.isItem])
    cases aliasName with
    | some name => exact isColumn_aliased hcall hentry name
    | none => exact ⟨_, by simpa [aliasTokens] using hcall, hentry, rfl⟩
  | subquery q aliasName =>
    obtain ⟨-, -, h⟩ := bind_eq_ok h
    obtain ⟨query, hquery, h⟩ := bind_eq_ok h
    cases h
    obtain ⟨inner, hinner, rfl⟩ := map_eq_ok hquery
    obtain ⟨es, hread⟩ := (hn q (List.mem_singleton_self q) inner hinner).exists_reads
    exact isColumn_aliased hread.parenthesized (.of_items (by simp) (by simp [Element.isItem])) aliasName

theorem isColumn_numberingTokens {orders : List (Term × Direction)}
    (hf : ∀ order ∈ orders, ∀ f ∈ order.1.fragments, F f) (h : numberingTokens t orders = .ok ts) :
    IsColumn ts := by
  obtain ⟨order, horder, h⟩ := bind_eq_ok h
  cases h
  obtain ⟨window, hwindow⟩ : ∃ es, Reads es (if orders.isEmpty then
      Token.parenthesized [.keyword .select, .space, .litInt 0] else order : List (Token Value)) := by
    have hconstant : Phrase t.profile F Keyword.any [.keyword .select, .space, .litInt 0] :=
      Phrase.spaced (.keyword (K := Keyword.any) rfl) (.word .zero)
    split
    · exact (Phrase.enclosed (K := Keyword.any) hconstant).exists_reads
    next hne =>
      exact (phrase_orderingTokens hf horder).elim (fun h => absurd (by simp [h.1]) hne) Phrase.exists_reads
  have hover := (reads_call (f := "ROW_NUMBER") .nil).append
    ((Reads.spaced .over).append ((Reads.keyword .orderBy).append (.append .space hwindow)).parenthesized)
  have hentry : Element.IsEntry [.token (.function "ROW_NUMBER"), .group (Element.columns [])] :=
    .of_items (by simp) (by simp [Element.isItem])
  have hcolumn := isColumn_aliased (p := t.profile) hover
    (hentry.append (by simp [Element.comma, Element.keyword]) (by simp [Element.keyword])) t.options.rowNumberAlias
  simpa [numberingColumn] using hcolumn

/-! ## Emitted statements -/

/-- The sections have a select list, and each of its entries is a single column. -/
structure Sections.ListsColumns (p : Profile) (F : Fragment → Prop) (s : Sections Nested) : Prop
    extends Sections.Holds (Nested.IsPhrase p F) F s where
  ne_nil : s.items ≠ []
  single : ∀ item ∈ s.items, item.isSingle p = true

/-- The tokens are a statement without common table expressions that delivers `n` columns. -/
def Delivers (n : Nat) (ts : List (Token Value)) : Prop :=
  ∃ es, Reads es ts ∧ Element.selectColumns es = some n

/-- The tokens deliver `n` columns also when something follows them at their level. -/
def DeliversFirst (n : Nat) (ts : List (Token Value)) : Prop :=
  ∃ es, Reads es ts ∧ ∀ after, Element.selectColumns (es ++ after) = some n

/-- A statement that is read without common table expressions has none. -/
theorem Element.columns_of_selectColumns {es : List Element} {n : Nat} (h : selectColumns es = some n) :
    columns es = some n := by
  unfold columns
  split
  · cases h
  · exact h

theorem DeliversFirst.delivers {n : Nat} (h : DeliversFirst n ts) : Delivers n ts := by
  obtain ⟨es, hread, hcolumns⟩ := h
  exact ⟨es, hread, by simpa using hcolumns []⟩

theorem DeliversFirst.append {n : Nat} {a b : List (Token Value)} (ha : DeliversFirst n a)
    (hb : ∃ es, Reads es b) : DeliversFirst n (a ++ b) := by
  obtain ⟨es, hread, hcolumns⟩ := ha
  obtain ⟨es', hread'⟩ := hb
  exact ⟨es ++ es', hread.append hread', fun after => by rw [List.append_assoc, hcolumns]⟩

theorem Delivers.parenthesized {n : Nat} (h : Delivers n ts) : DeliversFirst n (Token.parenthesized ts) := by
  obtain ⟨es, hread, hcolumns⟩ := h
  refine ⟨_, hread.parenthesized, fun after => ?_⟩
  rw [Element.columns_of_selectColumns hcolumns]
  rfl

/-- What is separated by commas is read one by one. -/
theorem reads_commaSeparated {P : List Element → Prop} {groups : List (List (Token Value))}
    (h : ∀ group ∈ groups, ∃ es, Reads es group ∧ P es) :
    ∃ entries, entries.length = groups.length ∧ (∀ entry ∈ entries, P entry) ∧
      Reads ([Element.comma].intercalate entries) (Token.commaSeparated groups) := by
  induction groups with
  | nil => exact ⟨[], rfl, by simp, .nil⟩
  | cons group rest ih =>
    rw [List.forall_mem_cons] at h
    obtain ⟨es, hread, hentry⟩ := h.1
    obtain ⟨entries, hlength, hentries, hreads⟩ := ih h.2
    refine ⟨es :: entries, by simp [hlength], List.forall_mem_cons.2 ⟨hentry, hentries⟩, ?_⟩
    cases rest with
    | nil =>
      obtain rfl : entries = [] := by simpa using hlength
      simpa [Token.commaSeparated, List.intercalate] using hread
    | cons next rest =>
      obtain ⟨entry, others, rfl⟩ : ∃ entry others, entries = entry :: others :=
        List.exists_cons_of_length_eq_add_one hlength
      rw [Token.commaSeparated, List.intercalate_cons_cons, List.intercalate_cons_cons]
      exact (hread.append (Reads.comma.append .space)).append hreads

theorem commaSeparated_concat {groups : List (List (Token α))} (hne : groups ≠ []) (group : List (Token α)) :
    Token.commaSeparated (groups ++ [group])
      = Token.commaSeparated groups ++ [.symbol .comma, .space] ++ group := by
  induction groups with
  | nil => exact absurd rfl hne
  | cons first rest ih =>
    cases rest with
    | nil => simp [Token.commaSeparated, List.intercalate]
    | cons next rest =>
      have ih := ih (List.cons_ne_nil next rest)
      rw [Token.commaSeparated, Token.commaSeparated] at ih ⊢
      rw [List.cons_append, List.cons_append, List.intercalate_cons_cons, ← List.cons_append, ih,
        List.intercalate_cons_cons]
      simp only [List.append_assoc]

/-- The number of columns beside the select list. -/
def Shape.further : Shape → Nat
  | .numbered => 1
  | _ => 0

/-- The select list, with the row numbers if there are any, is a list of entries. -/
theorem exists_columns {shape : Shape} {items number : List (Token Value)}
    (hs : s.ListsColumns t.profile F) (hitems : selectionTokens t.profile s.items = .ok items)
    (hnumber : shape.numberTokens t s.orders = .ok number) :
    ∃ groups, items ++ number = Token.commaSeparated groups ∧ groups.length = s.items.length + shape.further ∧
      ∀ group ∈ groups, IsColumn group := by
  unfold selectionTokens at hitems
  rw [if_neg (by simpa using hs.ne_nil)] at hitems
  obtain ⟨groups, hgroups, rfl⟩ := map_eq_ok hitems
  have hlength : groups.length = s.items.length := (mapM_eq_ok hgroups).length_eq.symm
  have hcolumns : ∀ group ∈ groups, IsColumn group := by
    intro group hgroup
    obtain ⟨item, hitem, htokens⟩ := exists_of_mem_mapM hgroups hgroup
    exact Selection.isColumn_tokens (hs.items item hitem).1 (hs.single item hitem) htokens
  cases shape with
  | plain | top rows | unordered =>
    cases hnumber
    exact ⟨groups, List.append_nil _, hlength, hcolumns⟩
  | numbered =>
    obtain ⟨column, hcolumn, h⟩ := bind_eq_ok hnumber
    cases h
    have hgroups : groups ≠ [] := by
      rw [← List.length_pos_iff, hlength]
      exact List.length_pos_iff.2 hs.ne_nil
    refine ⟨groups ++ [column], ?_, by simp [hlength, Shape.further], ?_⟩
    · rw [commaSeparated_concat hgroups, List.append_assoc]
    · exact List.forall_mem_append.2 ⟨hcolumns,
        List.forall_mem_singleton.2 (isColumn_numberingTokens hs.orders hcolumn)⟩

theorem reads_modifiers (distinct : Bool) (shape : Shape) :
    ∃ top, Reads (Element.modifiers distinct top)
      ((if distinct then [.space, .keyword .distinct] else []) ++ shape.topTokens : List (Token Value)) := by
  have hdistinct : Reads (if distinct then [.keyword .distinct] else [])
      (if distinct then [.space, .keyword .distinct] else [] : List (Token Value)) := by
    cases distinct with
    | true => exact Reads.space.append (.keyword .distinct)
    | false => exact .nil
  cases shape with
  | top rows =>
    have hcount : Reads [.token (.param ())] [(Token.value (.int (Page.bound rows)) : Token Value)] := fun _ _ _ => rfl
    exact ⟨some _, hdistinct.append ((Reads.spaced .top).append hcount.parenthesized)⟩
  | plain | numbered | unordered => exact ⟨none, hdistinct.append .nil⟩

theorem reads_fromTokens {source : Option (Source Nested)}
    (hsource : ∀ x ∈ source, (∀ n ∈ x.nested, n.IsPhrase p F) ∧ ∀ f ∈ x.fragments, F f)
    (h : fromTokens p source = .ok ts) : ∃ es, Reads (.keyword .from :: es) ts := by
  cases source with
  | none => cases h
  | some x =>
    obtain ⟨tokens, htokens, h⟩ := bind_eq_ok h
    cases h
    obtain ⟨es, hread⟩ := (Source.phrase_tokens (hsource x rfl).1 (hsource x rfl).2 htokens).exists_reads
    exact ⟨es, (Reads.spaced .from).append hread⟩

theorem delivers_selectTokens {shape : Shape} (hs : s.ListsColumns t.profile F) (h : selectTokens t s shape = .ok ts) :
    DeliversFirst (s.items.length + shape.further) ts := by
  obtain ⟨items, hitems, h⟩ := bind_eq_ok h
  obtain ⟨number, hnumber, h⟩ := bind_eq_ok h
  obtain ⟨source, hsource, h⟩ := bind_eq_ok h
  obtain ⟨joins, hjoins, h⟩ := bind_eq_ok h
  obtain ⟨filter, hfilter, h⟩ := bind_eq_ok h
  obtain ⟨groups, hgroups, h⟩ := bind_eq_ok h
  obtain ⟨having, hhaving, h⟩ := bind_eq_ok h
  obtain ⟨order, horder, h⟩ := bind_eq_ok h
  cases h
  obtain ⟨columns, hlist, hlength, hcolumns⟩ := exists_columns hs hitems hnumber
  obtain ⟨entries, hentries, hcolumn, hlistRead⟩ := reads_commaSeparated hcolumns
  obtain ⟨top, hmodifiers⟩ := reads_modifiers s.distinct shape
  obtain ⟨fromElements, hfrom⟩ := reads_fromTokens hs.source hsource
  obtain ⟨joinElements, hjoin⟩ := (hs.tail_joins hjoins).exists_reads
  obtain ⟨others, hothers⟩ := (hs.tail_sections hfilter hgroups hhaving horder).exists_reads
  have hread := (Reads.keyword .select).append (hmodifiers.append (Reads.space.append
    ((hlist ▸ hlistRead).append (hfrom.append (hjoin.append hothers)))))
  refine ⟨_, by simpa using hread, fun after => ?_⟩
  have hentriesne : entries ≠ [] := by
    rw [← List.length_pos_iff, hentries, hlength]
    exact Nat.lt_add_right _ (List.length_pos_iff.2 hs.ne_nil)
  have heq := Element.selectColumns_eq s.distinct top hentriesne
    (fun e he => (hcolumn e he).1) (fromElements ++ joinElements ++ others ++ after)
  rw [Element.entryColumns_eq_length fun e he => (hcolumn e he).2, hentries, hlength] at heq
  simpa [Element.keyword] using heq

/-! ### Pages -/

/-- A token that neither opens nor closes a parenthesis nor joins a source. -/
def Token.isLoose {α : Type} : Token α → Bool
  | .keyword k => k ≠ .join
  | .symbol .lparen | .symbol .rparen => false
  | _ => true

theorem reads_loose {ts : List (Token Value)} (h : ts.all Token.isLoose = true) :
    ∃ es, Reads es ts ∧ .keyword .join ∉ es := by
  induction ts with
  | nil => exact ⟨[], .nil, by simp⟩
  | cons t rest ih =>
    rw [List.all_cons, Bool.and_eq_true] at h
    obtain ⟨es, hread, hjoin⟩ := ih h.2
    have htoken : ∃ es, Reads es [t] ∧ Element.keyword .join ∉ es := by
      cases t with
      | space => exact ⟨[], .space, by simp⟩
      | keyword k =>
        have hk : k ≠ .join := by simpa [Token.isLoose] using h.1
        exact ⟨_, .keyword k, by simpa [Element.keyword] using hk.symm⟩
      | symbol s =>
        cases s with
        | lparen | rparen => cases h.1
        | _ => exact ⟨_, fun _ _ _ => rfl, by simp [Element.keyword, Token.map]⟩
      | _ => exact ⟨_, fun _ _ _ => rfl, by simp [Element.keyword, Token.map]⟩
    obtain ⟨es', hread', hjoin'⟩ := htoken
    exact ⟨es' ++ es, hread'.append hread, by simp [hjoin, hjoin']⟩

theorem isLoose_segmentToken (p : Profile) (cs : List Char) :
    (p.segmentToken cs : Token Value).isLoose = true := by
  unfold Profile.segmentToken
  split
  · rfl
  · split <;> rfl

theorem isLoose_tableAlias (p : Profile) (name : String) :
    (p.tableAlias name : List (Token Value)).all Token.isLoose = true := by
  unfold Profile.tableAlias Profile.aliasToken
  rw [List.all_append, List.all_cons, isLoose_segmentToken]
  split <;> rfl

theorem isLoose_pageTest {ordinal : Token Value} (h : ordinal.isLoose = true) (page : Page) :
    (pageTest ordinal page).all Token.isLoose = true := by
  have htest (op : Comparison) (bound : Int64) :
      (ordinalTest ordinal op.symbol bound).all Token.isLoose = true := by
    rw [ordinalTest, List.all_cons, h]
    cases op <;> rfl
  obtain ⟨limit, offset⟩ := page
  cases offset with
  | none =>
    cases limit with
    | none => rfl
    | some limit => exact htest .le _
  | some offset =>
    cases limit with
    | none => exact htest .ge _
    | some limit =>
      rw [pageTest, List.all_append, List.all_append]
      exact Bool.and_eq_true_iff.2 ⟨Bool.and_eq_true_iff.2 ⟨htest .ge _, rfl⟩, htest .lt _⟩

/-- Everything that is selected from a query delivers the columns of the query. -/
theorem delivers_selectAllFrom {n : Nat} {inner rest : List (Token Value)} (hinner : Delivers n inner)
    (hrest : rest.all Token.isLoose = true) : Delivers n (selectAllFrom inner ++ rest) := by
  obtain ⟨es, hread, hcolumns⟩ := hinner
  obtain ⟨others, hothers, hjoin⟩ := reads_loose hrest
  have hread := (((Reads.keyword .select).append (Reads.space.append .star)).append
    ((Reads.spaced .from).append hread.parenthesized)).append hothers
  refine ⟨_, by simpa [selectAllFrom] using hread, ?_⟩
  have hentry : Element.IsEntry [Element.star] := .of_items (by simp) (by simp [Element.isItem, Element.star])
  rw [Element.columns_of_selectColumns hcolumns]
  exact Element.selectColumns_star hentry rfl (List.forall_mem_nil _) (List.forall_mem_nil _) hjoin

/-- A further column beside everything that is selected from a query. -/
theorem delivers_beside {n : Nat} {es : List Element} {all column inner rest : List (Token Value)}
    (hall : Reads es all) (hentry : Element.IsEntry es) (hstar : Element.isStar es = true)
    (hcolumn : IsColumn column) (hinner : Delivers n inner) (hrest : rest.all Token.isLoose = true) :
    Delivers (n + 1) ([.keyword .select, .space] ++ all ++ [.symbol .comma, .space] ++ column
      ++ Token.spaced .from ++ Token.parenthesized inner ++ rest) := by
  obtain ⟨number, hnumber, hnumberEntry, hsingle⟩ := hcolumn
  obtain ⟨es', hread, hcolumns⟩ := hinner
  obtain ⟨others, hothers, hjoin⟩ := reads_loose hrest
  have hread := (((((((Reads.keyword .select).append .space).append hall).append (Reads.comma.append .space)).append
    hnumber).append (Reads.spaced .from)).append hread.parenthesized).append hothers
  refine ⟨_, hread, ?_⟩
  have heq := Element.selectColumns_star (n := n) hentry hstar (List.forall_mem_singleton.2 hnumberEntry)
    (List.forall_mem_singleton.2 hsingle) hjoin
  rw [Element.columns_of_selectColumns hcolumns]
  simpa [Element.keyword, List.intercalate] using heq

theorem delivers_numberedRows (hs : s.ListsColumns t.profile F) (h : numberedRows t s = .ok ts) :
    Delivers (s.items.length + 1) ts := by
  unfold numberedRows at h
  split at h
  · obtain ⟨number, hnumber, h⟩ := bind_eq_ok h
    obtain ⟨inner, hinner, h⟩ := bind_eq_ok h
    cases h
    have hnumber : IsColumn number := by
      refine isColumn_numberingTokens (F := F) (fun order horder => ?_) hnumber
      obtain ⟨⟨term, direction⟩, hterm, rfl⟩ := List.mem_map.1 horder
      simpa [Term.fragments_output] using hs.orders (term, direction) hterm
    exact delivers_beside .star (.of_items (by simp) (by simp [Element.isItem, Element.star])) rfl hnumber
      (delivers_selectTokens hs hinner).delivers (isLoose_tableAlias t.profile distinctTable)
  · exact (delivers_selectTokens hs h).delivers

theorem delivers_rowNumberPage {page : Page} {outermost : Bool} (hs : s.ListsColumns t.profile F)
    (h : rowNumberPage t s page outermost = .ok ts) : Delivers (s.items.length + 1) ts := by
  obtain ⟨inner, hinner, h⟩ := bind_eq_ok h
  cases h
  rw [List.append_assoc, List.append_assoc, List.append_assoc]
  refine delivers_selectAllFrom (delivers_numberedRows hs hinner) ?_
  have hordinal : (t.profile.aliasToken t.options.rowNumberAlias : Token Value).isLoose = true :=
    isLoose_segmentToken t.profile _
  have horder : (if outermost && !s.orders.isEmpty
      then Token.spaced .orderBy ++ [t.profile.aliasToken t.options.rowNumberAlias]
      else [] : List (Token Value)).all Token.isLoose = true := by
    split
    · rw [List.all_append, List.all_cons, hordinal]
      rfl
    · rfl
  rw [List.all_append, List.all_append, List.all_append, isLoose_tableAlias, isLoose_pageTest hordinal, horder]
  rfl

/-- The rows of a query with `ROWNUM` beside all their columns. -/
theorem delivers_rowNumRows {n : Nat} {inner : List (Token Value)} (hinner : Delivers n inner) :
    Delivers (n + 1) (rowNumRows t inner) := by
  have hwrapper := reads_segmentToken (α := Value) t.profile (Text.trim t.options.wrapperAlias.toList)
  have hitem := isItem_segmentToken t.profile (Text.trim t.options.wrapperAlias.toList)
  have hall := hwrapper.append (Reads.dot.append .star)
  have hentry := Element.IsEntry.of_items (List.cons_ne_nil _ _)
    (List.forall_mem_cons.2 ⟨hitem, (by decide : ∀ e ∈ [Element.dot, .star], e.isItem = true)⟩)
  have hrowNum : Reads [.token (.raw "ROWNUM")] [(rowNumToken : Token Value)] := fun _ _ _ => rfl
  have hcolumn := isColumn_aliased (p := t.profile) hrowNum
    (.of_items (List.cons_ne_nil _ _) (List.forall_mem_singleton.2 rfl)) t.options.rowNumberAlias
  have hbeside := delivers_beside hall hentry (by simp [Element.isStar]) hcolumn hinner
    (isLoose_tableAlias t.profile t.options.wrapperAlias)
  simpa [rowNumRows, aliasTokens, Profile.aliasToken] using hbeside

theorem delivers_rowNumPage {page : Page} (hs : s.ListsColumns t.profile F) (h : rowNumPage t s page = .ok ts) :
    Delivers (s.items.length + if page.offset.isSome then 1 else 0) ts := by
  obtain ⟨inner, hinner, h⟩ := bind_eq_ok h
  have hinner : Delivers s.items.length inner := (delivers_selectTokens hs hinner).delivers
  split at h
  next hoffset =>
    cases h
    rw [hoffset, List.append_assoc]
    exact delivers_selectAllFrom hinner (isLoose_pageTest (show (rowNumToken : Token Value).isLoose = true from rfl) page)
  next offset hoffset =>
    cases h
    rw [hoffset, List.append_assoc]
    exact delivers_selectAllFrom (delivers_rowNumRows hinner) (isLoose_pageTest (isLoose_segmentToken _ _) page)

/-- The number of columns that a plan adds: the row numbers, where they are a column. -/
def Plan.further : Plan → Nat
  | .rowNumber _ => 1
  | .rowNum page => if page.offset.isSome then 1 else 0
  | .whole | .limitOffset _ | .top _ => 0

theorem delivers_pagedTokens {outermost : Bool} (hs : s.ListsColumns t.profile F)
    (h : pagedTokens t s outermost = .ok ts) :
    Delivers (s.items.length + (Plan.ofPage t.profile.paging s.page).further) ts := by
  unfold pagedTokens at h
  cases hplan : Plan.ofPage t.profile.paging s.page with
  | whole =>
    rw [hplan] at h
    exact (delivers_selectTokens hs h).delivers
  | limitOffset page =>
    rw [hplan] at h
    obtain ⟨tokens, htokens, rfl⟩ := map_eq_ok h
    exact ((delivers_selectTokens hs htokens).append
      (tail_limitTokens (F := F) page).exists_reads).delivers
  | top rows =>
    rw [hplan] at h
    exact (delivers_selectTokens hs h).delivers
  | rowNumber page =>
    rw [hplan] at h
    exact delivers_rowNumberPage hs h
  | rowNum page =>
    rw [hplan] at h
    exact delivers_rowNumPage hs h

/-! ### Whole statements -/

/-- The first operand of a set operation. -/
theorem deliversFirst_operandTokens {paged : List (Token Value)} (hs : s.ListsColumns t.profile F)
    (hpaged : pagedTokens t s false = .ok paged) (h : operandTokens t.profile s.isDelimited paged = .ok ts) :
    DeliversFirst (s.items.length + (Plan.ofPage t.profile.paging s.page).further) ts := by
  obtain ⟨hd, rfl⟩ | ⟨-, -, rfl⟩ := operandTokens_cases h
  · have hplan := s.plan_eq_whole hd t.profile.paging
    rw [pagedTokens, hplan] at hpaged
    rw [hplan]
    exact delivers_selectTokens hs hpaged
  · exact (delivers_pagedTokens hs hpaged).parenthesized

/-- The elements of a common table expression. -/
def Element.IsCte (es : List Element) : Prop :=
  ∃ name columns, es = [.token name, .keyword .as, .group columns]

theorem Element.dropCtes_append {ctes : List (List Element)} (hne : ctes ≠ []) (h : ∀ cte ∈ ctes, IsCte cte)
    {rest : List Element} (hrest : rest.head? ≠ some .comma) :
    dropCtes ([Element.comma].intercalate ctes ++ rest) = rest := by
  induction ctes with
  | nil => exact absurd rfl hne
  | cons cte others ih =>
    rw [List.forall_mem_cons] at h
    obtain ⟨name, columns, rfl⟩ := h.1
    cases others with
    | cons next others =>
      rw [List.intercalate_cons_cons]
      exact ih (List.cons_ne_nil next others) h.2
    | nil =>
      cases rest with
      | nil => rfl
      | cons e rest =>
        cases e with
        | group => rfl
        | token t =>
          cases t with
          | symbol s =>
            cases s with
            | comma => exact absurd rfl hrest
            | _ => rfl
          | _ => rfl

theorem exists_reads_cteTokens {cte : String × Nested} (hn : cte.2.IsPhrase p F)
    (h : cteTokens p cte = .ok ts) : ∃ es, Reads es ts ∧ Element.IsCte es := by
  obtain ⟨-, -, h⟩ := bind_eq_ok h
  obtain ⟨query, hquery, h⟩ := bind_eq_ok h
  cases h
  obtain ⟨inner, hinner, rfl⟩ := map_eq_ok hquery
  obtain ⟨es, hread⟩ := (hn inner hinner).exists_reads
  exact ⟨_, (reads_segmentToken p _).append ((Reads.spaced .as).append hread.parenthesized), _, _, rfl⟩

/-- Common table expressions in front deliver nothing. -/
theorem columns_withTokens {n : Nat} {ctes : List (String × Nested)} {a : List (Token Value)}
    (hctes : ∀ cte ∈ ctes, cte.2.IsPhrase p F) (h : withTokens p ctes = .ok ts) (ha : Delivers n a) :
    Token.columns (ts ++ a) = some n := by
  obtain ⟨es, hread, hcolumns⟩ := ha
  unfold withTokens at h
  split at h
  · cases h
    rw [List.nil_append, hread.columns_eq, Element.columns_of_selectColumns hcolumns]
  next hne =>
    obtain ⟨list, hlist, h⟩ := bind_eq_ok h
    cases h
    have hcte : ∀ group ∈ list, ∃ es, Reads es group ∧ Element.IsCte es := by
      intro group hgroup
      obtain ⟨cte, hcte, htokens⟩ := exists_of_mem_mapM hlist hgroup
      exact exists_reads_cteTokens (hctes cte hcte) htokens
    obtain ⟨entries, hlength, hentries, hreads⟩ := reads_commaSeparated hcte
    have hentriesne : entries ≠ [] := by
      rw [← List.length_pos_iff, hlength, ← (mapM_eq_ok hlist).length_eq]
      exact List.length_pos_iff.2 (by simpa using hne)
    have hhead : es.head? ≠ some .comma := by
      intro hhead
      obtain ⟨rest, rfl⟩ := List.head?_eq_some_iff.1 hhead
      cases hcolumns
    have hread := ((((Reads.keyword .with_).append .space).append hreads).append .space).append hread
    refine hread.columns_eq.trans ?_
    simpa [Element.columns, Element.keyword, Element.dropCtes_append hentriesne hentries hhead] using hcolumns

theorem columns_sectionTokens {outermost : Bool} (hs : s.ListsColumns t.profile F)
    (h : sectionTokens t s outermost = .ok ts) :
    Token.columns ts = some (s.items.length + (Plan.ofPage t.profile.paging s.page).further) := by
  obtain ⟨ctes, hctes, h⟩ := bind_eq_ok h
  split at h
  · obtain ⟨head, hhead, h⟩ := bind_eq_ok h
    cases h
    exact columns_withTokens hs.ctes hctes (delivers_pagedTokens hs hhead)
  · obtain ⟨paged, hpaged, h⟩ := bind_eq_ok h
    obtain ⟨head, hhead, h⟩ := bind_eq_ok h
    obtain ⟨arms, harms, h⟩ := bind_eq_ok h
    cases h
    rw [List.append_assoc]
    exact columns_withTokens hs.ctes hctes
      ((deliversFirst_operandTokens hs hpaged hhead).append (hs.tail_arms harms).exists_reads).delivers

end

/-- Only SQL Server and Oracle have the row numbers as a column, and only for an offset. -/
theorem Plan.further_ofPage (d : Dialect) (page : Page) :
    (Plan.ofPage d.profile.paging page).further
      = if (d = .tsql ∨ d = .oracle) ∧ page.offset.isSome = true then 1 else 0 := by
  obtain ⟨limit, offset⟩ := page
  cases d <;> cases limit <;> cases offset <;> rfl

/-! ## Queries -/

namespace Query

/-- The select list is `k` entries, and each of them is a single column. -/
def SelectsColumns (p : Profile) (q : Query) (k : Nat) : Prop :=
  0 < k ∧ ∃ s, q.sections = .ok s ∧ s.items.length = k ∧ ∀ item ∈ s.items, item.isSingle p = true

variable {c : Compiler} {q : Query} {k : Nat} {ts : List (Token Value)}

theorem columns_tokensAt {outermost : Bool} (hq : q.SelectsColumns c.dialect.profile k)
    (h : q.tokensAt c.target outermost = .ok ts) :
    Token.columns ts = some (k + if (c.dialect = .tsql ∨ c.dialect = .oracle) ∧ q.offset?.isSome = true
      then 1 else 0) := by
  obtain ⟨hk, s, hs, rfl, hsingle⟩ := hq
  rw [tokensAt_eq, hs] at h
  have hmapped : ∀ item ∈ (s.map (Query.nested c.target)).items, item.isSingle c.target.profile = true := by
    intro item hitem
    obtain ⟨item, hmem, rfl⟩ := List.mem_map.1 hitem
    have hsingle := hsingle item hmem
    cases item <;> exact hsingle
  have hne : (s.map (Query.nested c.target)).items ≠ [] := by
    simpa using List.length_pos_iff.1 hk
  have hcolumns := columns_sectionTokens ⟨holds_sections hs, hne, hmapped⟩ h
  have hplan := Plan.further_ofPage c.dialect s.page
  rw [page_of_sections hs] at hplan
  rw [hcolumns, Sections.map_items, List.length_map, Sections.map_page, page_of_sections hs]
  exact congrArg (fun n => some (s.items.length + n)) hplan

end Query

namespace Compiler

/-- A query of single columns that is nested in a compiled one, wherever it is used and however it is
paged, delivers its columns and nothing else, except that with an offset in effect on SQL Server and on
Oracle the row numbers come along. -/
theorem columns_inside {c : Compiler} {q : Query} {r : Compiled} (h : c.compile q = .ok r) :
    ∀ used ∈ q.inside, used.AtEveryLevel fun inner => ∀ k, inner.SelectsColumns c.dialect.profile k →
      ∃ context ts after, 0 < context.depth ∧ (inner.emit c.target).run context = .ok (ts, after) ∧
        ts <:+: r.tokens ∧
        Token.columns ts = some (k +
          if (c.dialect = .tsql ∨ c.dialect = .oracle) ∧ inner.offset?.isSome = true then 1 else 0) := by
  intro used hused
  have hinside := Query.inside_emitted (run_emit_of_compile h) (List.infix_refl r.tokens) used hused
  refine hinside.mono fun inner ⟨context, ts, after, hdepth, hemit, hinfix⟩ k hk => ?_
  obtain ⟨tokens, htokens, rfl⟩ := Query.exists_tokensAt hemit
  have htokens : inner.tokensAt c.target false = .ok tokens := by
    rwa [beq_eq_false_iff_ne.2 (Nat.ne_of_gt hdepth)] at htokens
  exact ⟨context, _, after, hdepth, hemit, hinfix,
    (Token.columns_renumber _ tokens).trans (Query.columns_tokensAt hk htokens)⟩

/-- The numbers of the later invoices of each customer, once each. -/
def laterInvoices : Query :=
  ⟨[.column ⟨none, "id", some "invoice"⟩, .aggregate .max "total" none, .from (.table "invoices" none), .distinct,
    .orderBy (.column "id") .desc, .offset 10]⟩

/-- The first of these. -/
def firstInvoices : Query :=
  ⟨[.column ⟨some "i", "id", none⟩, .aggregate .count "*" (some "n"), .from (.table "invoices i" none), .limit 3,
    .setOperation laterInvoices .union false]⟩

theorem columns_inside_firstInvoices :
    ∃ r context ts after, (⟨.mysql, {}⟩ : Compiler).compile firstInvoices = .ok r ∧
      (laterInvoices.emit (⟨.mysql, {}⟩ : Compiler).target).run context = .ok (ts, after) ∧
      ts <:+: r.tokens ∧ Token.columns ts = some 2 := by
  obtain ⟨r, hr⟩ : ∃ r, (⟨.mysql, {}⟩ : Compiler).compile firstInvoices = .ok r := ⟨_, rfl⟩
  have hselects : laterInvoices.SelectsColumns Dialect.mysql.profile 2 :=
    ⟨by decide, _, rfl, rfl, by decide⟩
  have hinside := columns_inside hr laterInvoices (List.mem_singleton_self laterInvoices)
  obtain ⟨context, ts, after, -, hemit, hinfix, hcolumns⟩ := (Query.atEveryLevel_iff.1 hinside).1 2 hselects
  exact ⟨r, context, ts, after, hr, hemit, hinfix, hcolumns⟩

/-- The orders after the first one. -/
def laterOrderIds : Query :=
  ⟨[.column ⟨none, "id", none⟩, .from (.table "orders" none), .offset 1]⟩

/-- The invoices of these orders. -/
def laterOrderInvoices : Query :=
  ⟨[.from (.table "invoices" none), .filter ⟨.and, false, .inQuery "order" laterOrderIds⟩]⟩

/-- In an `IN` list of SQL Server, a single column with an offset is delivered as two. -/
theorem not_columns_laterOrderIds :
    laterOrderIds.SelectsColumns Dialect.tsql.profile 1 ∧
      ∃ r before ts after, (⟨.tsql, {}⟩ : Compiler).compile laterOrderInvoices = .ok r ∧
        (laterOrderIds.emit (⟨.tsql, {}⟩ : Compiler).target).run ⟨{}, 1⟩ = .ok (ts, after) ∧
        r.tokens = before ++ [.keyword .in_, .space] ++ Token.parenthesized ts ∧
        Token.columns ts = some 2 := by
  refine ⟨⟨by decide, _, rfl, rfl, by decide⟩, _,
    [.keyword .select, .space, .symbol .star, .space, .keyword .from, .space, .ident "invoices", .space,
      .keyword .where_, .space, .ident "order", .space], _, _, rfl, rfl, rfl, rfl⟩

end Compiler

end QueryCompiler
