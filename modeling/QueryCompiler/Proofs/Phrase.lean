-- SUMMARY: The grammar of emitted tokens, and that everything that is emitted is a phrase of it.
import QueryCompiler.Proofs.Contents
import QueryCompiler.Proofs.Tokens

/-!
# Phrases

A phrase is words with single spaces, dots or commas between them, and phrases
in parentheses. Every emitter makes phrases from phrases, and this module says
so once for each of them. What holds of every phrase therefore holds of every
statement: parentheses are balanced, names do not touch, only known words occur.
A phrase is told for the keywords that may stand at its own parenthesis level
and for the raw fragments that may occur anywhere in it.
-/

namespace QueryCompiler

/-! ## Words -/

/-- The functions that statements call. -/
inductive IsFunction : String → Prop where
  | aggregate (a : Aggregate) : IsFunction a.sqlName
  | lower : IsFunction "LOWER"
  | rowNumber : IsFunction "ROW_NUMBER"

/-- The tokens other than keywords that stand on their own: names, constants, parameters and
comparison signs. -/
inductive Profile.IsWord (p : Profile) : Token Value → Prop where
  | ident (name : String) : p.IsWord (.ident name)
  | quoted {cs : List Char} (h : p.quotes.isQuoted cs = true) : p.IsWord (.raw (String.ofList cs))
  | star : p.IsWord (.symbol .star)
  | comparison (op : Comparison) : p.IsWord (.symbol op.symbol)
  | param (v : Value) : p.IsWord (.param v)
  | zero : p.IsWord (.litInt 0)
  | one : p.IsWord (.litInt 1)
  /-- The pseudo-column that numbers rows. -/
  | rowNum : p.IsWord (.raw "ROWNUM")
  /-- The limit that keeps all rows. -/
  | allRows {rows : String} (h : p.loneOffset = .afterLimit rows) : p.IsWord (.raw rows)

/-- Tokens that are neither keywords nor parentheses. -/
def Token.isPlain {α : Type} : Token α → Bool
  | .keyword _ | .symbol .lparen | .symbol .rparen => false
  | _ => true

theorem Profile.IsWord.isPlain {p : Profile} {t : Token Value} (h : p.IsWord t) : t.isPlain = true := by
  cases h with
  | comparison op => cases op <;> rfl
  | _ => rfl

/-! ## Raw fragments -/

namespace Fragment

theorem raw_or_param_of_mem_fill {parts : List Part} {values : List Value} {t : Token Value}
    (h : t ∈ fill parts values) : (∃ text, t = .raw text) ∨ ∃ v, t = .param v := by
  induction parts generalizing values with
  | nil => cases h
  | cons part rest ih =>
    cases part with
    | text cs =>
      rcases List.mem_cons.1 h with rfl | h
      · exact .inl ⟨_, rfl⟩
      · exact ih h
    | marker =>
      cases values with
      | nil => exact ih h
      | cons v values =>
        rcases List.mem_cons.1 h with rfl | h
        · exact .inr ⟨v, rfl⟩
        · exact ih h

/-- A fragment is emitted as its text and its parameters. -/
theorem raw_or_param_of_mem_tokens {f : Fragment} {ts : List (Token Value)} (h : f.tokens = .ok ts) :
    ∀ t ∈ ts, (∃ text, t = .raw text) ∨ ∃ v, t = .param v := by
  intro t ht
  unfold tokens at h
  split at h
  · cases h
    exact raw_or_param_of_mem_fill ht
  · cases h

theorem isPlain_of_mem_tokens {f : Fragment} {ts : List (Token Value)} (h : f.tokens = .ok ts) :
    ∀ t ∈ ts, t.isPlain = true := by
  intro t ht
  obtain ⟨_, rfl⟩ | ⟨_, rfl⟩ := raw_or_param_of_mem_tokens h t ht
  · rfl
  · rfl

theorem fill_ne_nil {parts : List Part} {values : List Value} (hne : parts ≠ [])
    (h : parts.count .marker = values.length) : fill parts values ≠ [] := by
  cases parts with
  | nil => exact absurd rfl hne
  | cons part rest =>
    cases part with
    | text cs => simp [fill]
    | marker =>
      cases values with
      | nil => simp at h
      | cons v values => simp [fill]

theorem count_marker_cons (m : Mark) (parts : List Part) :
    (m.cons parts).count .marker = parts.count .marker + if m = .marker then 1 else 0 := by
  cases m with
  | marker => simp [Mark.cons]
  | char c =>
    cases parts with
    | nil => simp [Mark.cons]
    | cons part rest => cases part <;> simp [Mark.cons]

theorem count_marker_foldr (list : List Mark) :
    (list.foldr Mark.cons []).count .marker = list.count .marker := by
  induction list with
  | nil => rfl
  | cons m list ih =>
    rw [List.foldr_cons, count_marker_cons, ih, List.count_cons]
    simp

/-- A fragment is emitted as at least one token, even an empty one. -/
theorem tokens_ne_nil {f : Fragment} {ts : List (Token Value)} (h : f.tokens = .ok ts) : ts ≠ [] := by
  unfold tokens at h
  split at h
  next hcount =>
    cases h
    have hmarkers := count_marker_foldr (marks f.text.toList)
    unfold parts
    split
    next hnil =>
      rw [hnil] at hmarkers
      exact fill_ne_nil (by simp) (hmarkers.trans hcount)
    next hparts => exact fill_ne_nil hparts (hmarkers.trans hcount)
  · cases h

end Fragment

/-! ## The grammar -/

/-- Phrases whose keywords outside parentheses are in `K` and whose raw fragments are in `F`. -/
inductive Phrase (p : Profile) (F : Fragment → Prop) : (Keyword → Bool) → List (Token Value) → Prop where
  | word {K : Keyword → Bool} {t : Token Value} (h : p.IsWord t) : Phrase p F K [t]
  | keyword {K : Keyword → Bool} {k : Keyword} (h : K k = true) : Phrase p F K [.keyword k]
  | fragment {K : Keyword → Bool} {f : Fragment} {tokens : List (Token Value)} (hf : F f)
      (h : f.tokens = .ok tokens) : Phrase p F K tokens
  | spaced {K : Keyword → Bool} {a b : List (Token Value)} (ha : Phrase p F K a) (hb : Phrase p F K b) :
      Phrase p F K (a ++ .space :: b)
  | dotted {K : Keyword → Bool} {a b : List (Token Value)} (ha : Phrase p F K a) (hb : Phrase p F K b) :
      Phrase p F K (a ++ .symbol .dot :: b)
  | listed {K : Keyword → Bool} {a b : List (Token Value)} (ha : Phrase p F K a) (hb : Phrase p F K b) :
      Phrase p F K (a ++ .symbol .comma :: .space :: b)
  | enclosed {K J : Keyword → Bool} {a : List (Token Value)} (ha : Phrase p F J a) :
      Phrase p F K (Token.parenthesized a)
  | call {K : Keyword → Bool} {f : String} (hf : IsFunction f) :
      Phrase p F K (.function f :: Token.parenthesized [])
  | applied {K J : Keyword → Bool} {f : String} {a : List (Token Value)} (hf : IsFunction f)
      (ha : Phrase p F J a) : Phrase p F K (.function f :: Token.parenthesized a)

/-- The keywords inside the parts of a statement. They neither open nor end a part. -/
def Keyword.isInner : Keyword → Bool
  | .and | .or | .not | .as | .desc | .in_ | .between | .like | .ilike | .isNull | .isNotNull
  | .exists => true
  | _ => false

/-- The keywords of a joined source, up to its conditions. -/
def Keyword.ofJoin (k : Keyword) : Bool :=
  k.isInner || match k with
    | .join | .inner | .left | .right | .full | .outer | .cross => true
    | _ => false

/-- The keywords of a SELECT up to its joins. -/
def Keyword.ofHead (k : Keyword) : Bool :=
  k.ofJoin || match k with
    | .select | .distinct | .top | .over | .from | .on => true
    | _ => false

/-- Every keyword. -/
def Keyword.any (_ : Keyword) : Bool :=
  true

theorem Keyword.ofJoin_of_isInner (k : Keyword) (h : k.isInner = true) : k.ofJoin = true := by
  simp [ofJoin, h]

theorem Keyword.ofHead_of_ofJoin (k : Keyword) (h : k.ofJoin = true) : k.ofHead = true := by
  simp [ofHead, h]

theorem Keyword.ofHead_of_isInner (k : Keyword) (h : k.isInner = true) : k.ofHead = true :=
  k.ofHead_of_ofJoin (k.ofJoin_of_isInner h)

variable {p : Profile} {F : Fragment → Prop} {K K' : Keyword → Bool} {a b ts : List (Token Value)}

/-- What may follow a phrase: nothing, or a space and a phrase. -/
def Tail (p : Profile) (F : Fragment → Prop) (K : Keyword → Bool) (ts : List (Token Value)) : Prop :=
  ts = [] ∨ ∃ a, Phrase p F K a ∧ ts = .space :: a

namespace Phrase

theorem mono (hK : ∀ k, K k = true → K' k = true) (h : Phrase p F K ts) : Phrase p F K' ts := by
  induction h with
  | word h => exact .word h
  | keyword h => exact .keyword (hK _ h)
  | fragment hf h => exact .fragment hf h
  | spaced _ _ iha ihb => exact .spaced (iha hK) (ihb hK)
  | dotted _ _ iha ihb => exact .dotted (iha hK) (ihb hK)
  | listed _ _ iha ihb => exact .listed (iha hK) (ihb hK)
  | enclosed ha => exact .enclosed ha
  | call hf => exact .call hf
  | applied hf ha => exact .applied hf ha

theorem any (h : Phrase p F K ts) : Phrase p F Keyword.any ts :=
  h.mono fun _ _ => rfl

theorem append (ha : Phrase p F K a) (hb : Tail p F K b) : Phrase p F K (a ++ b) := by
  obtain rfl | ⟨b, hb, rfl⟩ := hb
  · simpa using ha
  · exact .spaced ha hb

theorem commaSeparated {groups : List (List (Token Value))} (hne : groups ≠ [])
    (h : ∀ group ∈ groups, Phrase p F K group) : Phrase p F K (Token.commaSeparated groups) := by
  induction groups with
  | nil => exact absurd rfl hne
  | cons group rest ih =>
    cases rest with
    | nil => simpa [Token.commaSeparated, List.intercalate] using h group
    | cons next rest =>
      have hrest := ih (by simp) fun g hg => h g (List.mem_cons_of_mem _ hg)
      simpa [Token.commaSeparated, List.intercalate] using
        Phrase.listed (h group List.mem_cons_self) hrest

theorem intersperse_dot {words : List (Token Value)} (hne : words ≠ [])
    (h : ∀ t ∈ words, p.IsWord t) : Phrase p F K (words.intersperse (.symbol .dot)) := by
  induction words with
  | nil => exact absurd rfl hne
  | cons t rest ih =>
    cases rest with
    | nil => exact .word (h t List.mem_cons_self)
    | cons next rest =>
      have hrest := ih (by simp) fun u hu => h u (List.mem_cons_of_mem _ hu)
      exact .dotted (.word (h t List.mem_cons_self)) hrest

end Phrase

namespace Tail

theorem nil : Tail p F K [] :=
  .inl rfl

theorem space (h : Phrase p F K a) : Tail p F K (.space :: a) :=
  .inr ⟨a, h, rfl⟩

theorem append (ha : Tail p F K a) (hb : Tail p F K b) : Tail p F K (a ++ b) := by
  obtain rfl | ⟨a, ha, rfl⟩ := ha
  · exact hb
  · exact .space (ha.append hb)

theorem flatten {groups : List (List (Token Value))} (h : ∀ group ∈ groups, Tail p F K group) :
    Tail p F K groups.flatten := by
  induction groups with
  | nil => exact .nil
  | cons group rest ih =>
    exact (h group List.mem_cons_self).append (ih fun g hg => h g (List.mem_cons_of_mem _ hg))

theorem spaced {k : Keyword} (hk : K k = true) (h : Phrase p F K a) :
    Tail p F K (Token.spaced k ++ a) :=
  .space (.spaced (.keyword hk) h)

theorem sectionOf {k : Keyword} (hk : K k = true) (h : a = [] ∨ Phrase p F K a) :
    Tail p F K (Token.sectionOf k a) := by
  unfold Token.sectionOf
  split
  · exact .nil
  · obtain rfl | h := h
    · contradiction
    · exact .spaced hk h

end Tail

end QueryCompiler
