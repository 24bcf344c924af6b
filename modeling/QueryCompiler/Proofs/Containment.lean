-- SUMMARY: Names cannot leave their quotes: a compiled text reads as quoted names and words of a fixed vocabulary.
import QueryCompiler.Proofs.Emission
import QueryCompiler.Proofs.Lexing
import QueryCompiler.Proofs.Binding

/-!
# Containment

Names reach the text by several routes: as segments that are quoted, as segments
that were quoted already, as aliases. Whatever characters they have, a reader of
the text of a query without raw fragments sees each of them as one quoted
identifier, and outside of these only words that no name had a part in.
-/

namespace QueryCompiler

/-! ## The vocabulary -/

/-- The words of a dialect that stand outside quoted identifiers. -/
inductive Profile.IsVocabulary (p : Profile) : String → Prop where
  | keyword (k : Keyword) : p.IsVocabulary (k.text p)
  | symbol (s : Symbol) : p.IsVocabulary s.text
  | space : p.IsVocabulary " "
  | zero : p.IsVocabulary "0"
  | one : p.IsVocabulary "1"
  | function {f : String} (h : IsFunction f) : p.IsVocabulary f
  | rowNum : p.IsVocabulary "ROWNUM"
  | allRows {rows : String} (h : p.loneOffset = .afterLimit rows) : p.IsVocabulary rows
  | placeholder (i : Nat) : p.IsVocabulary (p.placeholder i)

/-- The words that stand behind a quoted identifier. -/
def separators : List String :=
  [" ", ".", ",", ")"]

theorem Profile.IsVocabulary.of_mem_separators {p : Profile} {word : String}
    (h : word ∈ separators) : p.IsVocabulary word := by
  simp only [separators, List.mem_cons, List.not_mem_nil, or_false] at h
  rcases h with rfl | rfl | rfl | rfl
  · exact .space
  · exact .symbol .dot
  · exact .symbol .comma
  · exact .symbol .rparen

/-- Quotes that are told from the vocabulary: no word opens a quoted identifier, and none that stands
behind one goes on with it. -/
structure Profile.QuotesApart (p : Profile) : Prop where
  opening : ∀ word, p.IsVocabulary word → p.quotes.opening ∉ word.toList
  closing : ∀ word ∈ separators, word.toList.head?.any (· != p.quotes.closing) = true

/-- The quotes of a dialect are no digits. -/
private theorem opening_notMem_toString (d : Dialect) (n : Nat) :
    d.profile.quotes.opening ∉ (toString n).toList := by
  intro hmem
  have hdigit : d.profile.quotes.opening.isDigit = true := by
    refine Nat.isDigit_of_mem_toDigits (b := 10) (n := n) (by decide) (by decide) ?_
    simpa using hmem
  revert hdigit
  cases d <;> decide

/-- Keywords are capital letters with blanks between them. -/
theorem Dialect.notMem_keyword {c : Char} (hc : (c.isUpper || c == ' ') = false) (d : Dialect) (k : Keyword) :
    c ∉ (k.text d.profile).toList := by
  have hcapitals : (k.text d.profile).toList.all (fun c => c.isUpper || c == ' ') = true := by
    cases k with
    | except => cases d <;> decide
    | _ =>
      simp only [Keyword.text]
      decide
  intro hmem
  exact Bool.false_ne_true (hc.symm.trans (List.all_eq_true.1 hcapitals c hmem))

theorem Dialect.quotesApart (d : Dialect) : d.profile.QuotesApart := by
  constructor
  case opening =>
    intro word hword
    cases hword with
    | keyword k => exact d.notMem_keyword (by cases d <;> decide) k
    | symbol s => cases d <;> cases s <;> decide
    | space | zero | one | rowNum => cases d <;> decide
    | function hf =>
      cases hf with
      | aggregate a => cases d <;> cases a <;> decide
      | lower | rowNumber => cases d <;> decide
    | allRows hrows => cases d <;> cases hrows <;> decide
    | placeholder i =>
      have hdigits := opening_notMem_toString d
      rw [Profile.placeholder]
      split
      next lead hform =>
        rw [String.toList_append, List.mem_append, not_or]
        refine ⟨?_, hdigits i⟩
        cases d <;> cases hform <;> decide
      · rw [String.toList_append, List.mem_append, not_or]
        exact ⟨by cases d <;> decide, hdigits _⟩
      · cases d <;> decide
  case closing => cases d <;> decide

/-! ## Tokens and what is seen of them -/

namespace Token

variable {p : Profile} {a b : List (Token Nat)}

/-- A token is seen as one quoted identifier, or as the characters of a word. -/
inductive ReadAs (p : Profile) (t : Token Nat) : List Lexeme → Prop where
  | name {cs : List Char} (h : (t.text p p.placeholder).toList = p.quotes.quote cs) :
      ReadAs p t [.name cs]
  | word (h : p.IsVocabulary (t.text p p.placeholder)) :
      ReadAs p t ((t.text p p.placeholder).toList.map .char)

/-- Whatever follows them, as long as it does not go on with a closing quote, tokens are seen one by
one in front of it. -/
def Contained (p : Profile) (tokens : List (Token Nat)) : Prop :=
  ∀ rest, p.quotes.AtBoundary rest → ∃ parts, List.Forall₂ (ReadAs p) tokens parts ∧
    p.quotes.read .outside ((placeholderText p tokens).toList ++ rest)
      = (p.quotes.read .outside rest).map (parts.flatten ++ ·)

namespace Contained

theorem nil : Contained p [] := by
  intro rest _
  exact ⟨[], .nil, by simp [placeholderText, textOf]⟩

/-- A word in front. -/
theorem cons (hp : p.QuotesApart) {t : Token Nat} (ht : p.IsVocabulary (t.text p p.placeholder))
    (hb : Contained p b) : Contained p (t :: b) := by
  intro rest hrest
  obtain ⟨parts, hparts, hread⟩ := hb rest hrest
  refine ⟨_, .cons (.word ht) hparts, ?_⟩
  have htext : (placeholderText p (t :: b)).toList ++ rest
      = (t.text p p.placeholder).toList ++ ((placeholderText p b).toList ++ rest) := by
    simp [placeholderText, toList_textOf]
  rw [htext, QuotePair.read_append_of_notMem (hp.opening _ ht), hread, Option.map_map]
  simp [Function.comp_def]

theorem word (hp : p.QuotesApart) {t : Token Nat} (ht : p.IsVocabulary (t.text p p.placeholder)) :
    Contained p [t] :=
  cons hp ht nil

theorem name {t : Token Nat} (cs : List Char)
    (ht : (t.text p p.placeholder).toList = p.quotes.quote cs) : Contained p [t] := by
  intro rest hrest
  refine ⟨_, .cons (.name ht) .nil, ?_⟩
  have htext : (placeholderText p [t]).toList = p.quotes.quote cs := by
    simpa [placeholderText, toList_textOf] using ht
  rw [htext, QuotePair.read_quote_append hrest]
  rfl

theorem append (ha : Contained p a) (hb : Contained p b)
    (hstart : ∀ rest, p.quotes.AtBoundary ((placeholderText p b).toList ++ rest)) :
    Contained p (a ++ b) := by
  intro rest hrest
  obtain ⟨right, hright, hreadRight⟩ := hb rest hrest
  obtain ⟨left, hleft, hreadLeft⟩ := ha _ (hstart rest)
  refine ⟨left ++ right, List.rel_append hleft hright, ?_⟩
  have htext : (placeholderText p (a ++ b)).toList ++ rest
      = (placeholderText p a).toList ++ ((placeholderText p b).toList ++ rest) := by
    simp [placeholderText, toList_textOf]
  rw [htext, hreadLeft, hreadRight, Option.map_map]
  simp [Function.comp_def]

/-- Tokens on both sides of a separator. -/
theorem separated (hp : p.QuotesApart) {t : Token Nat} (ht : t.text p p.placeholder ∈ separators)
    (ha : Contained p a) (hb : Contained p b) : Contained p (a ++ t :: b) := by
  apply ha.append (cons hp (.of_mem_separators ht) hb)
  intro rest
  obtain ⟨c, hhead, hc⟩ := (Option.any_eq_true _ _).1 (hp.closing _ ht)
  obtain ⟨word, hword⟩ := List.head?_eq_some_iff.1 hhead
  have htext : (placeholderText p (t :: b)).toList ++ rest
      = c :: (word ++ (placeholderText p b).toList ++ rest) := by
    simp [placeholderText, toList_textOf, hword]
  rw [htext]
  exact QuotePair.atBoundary_cons (by simpa using hc)

theorem parenthesized (hp : p.QuotesApart) (ha : Contained p a) : Contained p (parenthesized a) :=
  .cons hp (.symbol .lparen) (.separated hp (by simp [text, Symbol.text, separators]) ha .nil)

end Contained

end Token

/-! ## Phrases are contained -/

theorem IsFunction.upper_eq {f : String} (h : IsFunction f) : Text.upper f = f := by
  cases h with
  | aggregate a => cases a <;> decide
  | lower | rowNumber => decide

theorem Profile.IsWord.contained {p : Profile} (hp : p.QuotesApart) {t : Token Value} (h : p.IsWord t)
    (n : Nat) : Token.Contained p [t.map fun _ => n] := by
  cases h with
  | ident name =>
    refine .name name.toList ?_
    simp [Token.map, Token.text, Profile.quoteIdentifier]
  | quoted hquoted =>
    obtain ⟨name, rfl⟩ := QuotePair.exists_quote_of_isQuoted hquoted
    refine .name name ?_
    simp [Token.map, Token.text]
  | star => exact .word hp (.symbol .star)
  | comparison op => exact .word hp (.symbol op.symbol)
  | param v => exact .word hp (.placeholder n)
  | zero => exact .word hp .zero
  | one => exact .word hp .one
  | rowNum => exact .word hp .rowNum
  | allRows hrows => exact .word hp (.allRows hrows)

theorem Phrase.contained {p : Profile} (hp : p.QuotesApart) {K : Keyword → Bool}
    {ts : List (Token Value)} (h : Phrase p (fun _ => False) K ts) (n : Nat) :
    Token.Contained p (Token.renumber n ts) := by
  induction h generalizing n with
  | word h => exact h.contained hp n
  | keyword => exact .word hp (.keyword _)
  | fragment hf => exact hf.elim
  | spaced _ _ iha ihb =>
    rw [Token.renumber_append]
    exact .separated hp (by simp [separators, Token.map, Token.text]) (iha n) (ihb _)
  | dotted _ _ iha ihb =>
    rw [Token.renumber_append]
    exact .separated hp (by simp [separators, Token.map, Token.text, Symbol.text]) (iha n) (ihb _)
  | listed _ _ iha ihb =>
    rw [Token.renumber_append]
    exact .separated hp (by simp [separators, Token.map, Token.text, Symbol.text]) (iha n) (.cons hp .space (ihb _))
  | enclosed _ ih =>
    rw [Token.renumber_parenthesized]
    exact (ih n).parenthesized hp
  | call hf =>
    have hname := Profile.IsVocabulary.function (p := p) hf
    rw [← hf.upper_eq] at hname
    exact .cons hp hname (Token.Contained.nil.parenthesized hp)
  | applied hf _ ih =>
    have hname := Profile.IsVocabulary.function (p := p) hf
    rw [← hf.upper_eq] at hname
    rw [Token.renumber, Token.renumber_parenthesized]
    exact .cons hp hname ((ih _).parenthesized hp)

/-! ## Compiled texts -/

namespace Compiler

/-- The text of a query without raw fragments at any level reads, to its end, token by token: each
token is seen as one quoted identifier or as a word of the vocabulary. No name adds anything outside
quotes, and no quoted identifier runs into what follows it. -/
theorem lexemes_compile (c : Compiler) (q : Query) (r : Compiled)
    (hq : q.Everywhere fun clause => clause.fragments = []) (h : c.compile q = .ok r) :
    ∃ parts, List.Forall₂ (Token.ReadAs c.dialect.profile) r.tokens parts ∧
      c.dialect.profile.quotes.lexemes? r.sql.toList = some parts.flatten := by
  obtain ⟨tokens, htokens, -, rfl⟩ := compile_eq_ok_iff.1 h
  have hphrase : Phrase c.dialect.profile (fun _ => False) Keyword.any tokens := by
    refine Query.phrase_tokens (hq.mono fun clause hclause => ?_) htokens
    simp [hclause]
  obtain ⟨parts, hparts, hread⟩ := hphrase.contained c.dialect.quotesApart 0 [] QuotePair.atBoundary_nil
  refine ⟨parts, hparts, ?_⟩
  rw [List.append_nil] at hread
  rw [QuotePair.lexemes?, Compiled.sql, hread]
  simp [QuotePair.read]

/-- Names that try to leave their quotes, beside one that is quoted already. -/
def hostileNames : Query :=
  ⟨[.select "a\"; DROP TABLE t; --", .select "\"id\" as \"x\"\"y\"", .from (.table "s\".\"v" (some "\"w")),
    .filter ⟨.and, false, .exists ⟨[.from (.table "\"u" none)]⟩⟩, .limit 5]⟩

theorem lexemes_compile_hostileNames :
    ∃ r parts, (⟨.sqlite, {}⟩ : Compiler).compile hostileNames = .ok r ∧
      r.sql = "SELECT \"a\"\"; DROP TABLE t; --\", \"id\" AS \"x\"\"y\" FROM \"s\"\".\"\"v\" AS \"\"\"w\" " ++
        "WHERE EXISTS (SELECT * FROM \"\"\"u\") LIMIT ?" ∧
      List.Forall₂ (Token.ReadAs Dialect.sqlite.profile) r.tokens parts ∧
      Dialect.sqlite.profile.quotes.lexemes? r.sql.toList = some parts.flatten := by
  have hinner : (⟨[.from (.table "\"u" none)]⟩ : Query).Everywhere fun clause => clause.fragments = [] :=
    .mk (by simp [Clause.fragments, Source.fragments]) (by simp [Clause.nested, Source.nested])
  have hnames : hostileNames.Everywhere fun clause => clause.fragments = [] := by
    refine .mk ?_ ?_
    · simp only [List.forall_mem_cons]
      exact ⟨rfl, rfl, rfl, rfl, rfl, by simp⟩
    · simpa [Clause.nested, Source.nested, Condition.nested, Predicate.nested] using hinner
  obtain ⟨parts, hparts, hlexemes⟩ := lexemes_compile ⟨.sqlite, {}⟩ hostileNames _ hnames rfl
  exact ⟨_, parts, rfl, rfl, hparts, hlexemes⟩

end Compiler

end QueryCompiler
