-- SUMMARY: Spaces stand only between tokens and one at a time, and no two words run together.
import Mathlib.Data.List.Chain
import QueryCompiler.Proofs.Emission
import QueryCompiler.Proofs.Binding
import QueryCompiler.Proofs.Reading

/-!
# Spacing

Spaces are written by many emitters, and what one of them leaves open the next one
has to close. Every emission is a phrase, and both laws of spacing hold of the
ways in which phrases are made. A phrase has no space at its ends, so one may be put
between two phrases. A space, a dot, a comma or a parenthesis is always there
between two words, as long as no raw fragment brings its own.
-/

namespace QueryCompiler

namespace Token

variable {α : Type} {f : Token α → Bool} {a b ts : List (Token α)} {s : Token α}

/-! ## Tokens that stay apart -/

/-- The tokens that are written as words: keywords, names, functions, numbers, parameters and raw text. -/
def isWord : Token α → Bool
  | .symbol _ | .space => false
  | _ => true

/-- No two neighbours are of this kind. -/
def Apart (f : Token α → Bool) (ts : List (Token α)) : Prop :=
  ts.IsChain fun t u => ¬(f t = true ∧ f u = true)

theorem apart_nil : Apart f [] :=
  List.isChain_nil

theorem apart_singleton (t : Token α) : Apart f [t] :=
  List.isChain_singleton t

theorem Apart.append (ha : Apart f a) (hb : Apart f b) (h : ∀ t ∈ a.getLast?, f t = false) : Apart f (a ++ b) := by
  refine List.isChain_append.2 ⟨ha, hb, fun t ht u _ hboth => ?_⟩
  exact Bool.false_ne_true ((h t ht).symm.trans hboth.1)

theorem Apart.cons (hs : f s = false) (hb : Apart f b) : Apart f (s :: b) :=
  (apart_singleton s).append hb (by simpa using hs)

/-- A token of another kind may stand between any two lists. -/
theorem Apart.append_cons (ha : Apart f a) (hs : f s = false) (hb : Apart f b) : Apart f (a ++ s :: b) := by
  refine List.isChain_append.2 ⟨ha, hb.cons hs, fun t _ u hu hboth => ?_⟩
  obtain rfl : s = u := by simpa using hu
  exact Bool.false_ne_true (hs.symm.trans hboth.2)

theorem Apart.parenthesized (ha : Apart f a) (hl : f (.symbol .lparen) = false) (hr : f (.symbol .rparen) = false) :
    Apart f (parenthesized a) :=
  (ha.cons hl).append_cons hr apart_nil

/-- Between two words stands a token that is none. -/
theorem Apart.exists_between {front middle back : List (Token α)} {t u : Token α}
    (h : Apart isWord (front ++ t :: (middle ++ u :: back))) (ht : t.isWord = true) (hu : u.isWord = true) :
    ∃ v ∈ middle, v.isWord = false := by
  have hbehind := (List.isChain_append.1 h).2.1
  cases middle with
  | nil => exact absurd ⟨ht, hu⟩ (List.isChain_cons_cons.1 hbehind).1
  | cons v middle =>
    have hneighbours := (List.isChain_cons_cons.1 hbehind).1
    refine ⟨v, List.mem_cons_self, ?_⟩
    simpa [ht] using hneighbours

/-! ## Single spaces -/

/-- Neither starts nor ends with a space, and has no two spaces next to each other. -/
structure IsSpaced (ts : List (Token α)) : Prop where
  ne_nil : ts ≠ []
  head : ∀ t ∈ ts.head?, t.isSpace = false
  last : ∀ t ∈ ts.getLast?, t.isSpace = false
  apart : Apart isSpace ts

namespace IsSpaced

theorem append (ha : IsSpaced a) (hb : IsSpaced b) : IsSpaced (a ++ b) where
  ne_nil := List.append_ne_nil_of_left_ne_nil ha.ne_nil b
  head := by
    intro t ht
    rw [List.head?_append_of_ne_nil a ha.ne_nil] at ht
    exact ha.head t ht
  last := by
    intro t ht
    rw [List.getLast?_append_of_ne_nil a hb.ne_nil] at ht
    exact hb.last t ht
  apart := ha.apart.append hb.apart ha.last

/-- A space may stand between lists that do not end with one. -/
theorem append_space (ha : IsSpaced a) (hb : IsSpaced b) : IsSpaced (a ++ .space :: b) where
  ne_nil := List.append_ne_nil_of_left_ne_nil ha.ne_nil _
  head := by
    intro t ht
    rw [List.head?_append_of_ne_nil a ha.ne_nil] at ht
    exact ha.head t ht
  last := by
    intro t ht
    rw [List.getLast?_append_of_ne_nil a (List.cons_ne_nil _ b), List.getLast?_cons_of_ne_nil hb.ne_nil] at ht
    exact hb.last t ht
  apart := by
    refine ha.apart.append (List.isChain_cons.2 ⟨fun t ht hboth => ?_, hb.apart⟩) ha.last
    exact Bool.false_ne_true ((hb.head t ht).symm.trans hboth.2)

/-- A list without spaces. -/
theorem of_forall (hne : ts ≠ []) (h : ∀ t ∈ ts, t.isSpace = false) : IsSpaced ts where
  ne_nil := hne
  head t ht := h t (List.mem_of_mem_head? ht)
  last t ht := h t (List.mem_of_getLast? ht)
  apart := by
    refine List.isChain_iff_forall_rel_of_append_cons_cons.2 fun {t u front back} hts hboth => ?_
    have ht : t ∈ ts := by simp [hts]
    exact Bool.false_ne_true ((h t ht).symm.trans hboth.1)

theorem singleton {t : Token α} (h : t.isSpace = false) : IsSpaced [t] :=
  of_forall (List.cons_ne_nil t []) (by simpa using h)

theorem parenthesized (ha : IsSpaced a) : IsSpaced (parenthesized a) :=
  ((singleton (t := .symbol .lparen) rfl).append ha).append (singleton rfl)

end IsSpaced

/-! ## Numbered tokens -/

@[simp] theorem isSpace_map {β : Type} (g : α → β) (t : Token α) : (t.map g).isSpace = t.isSpace := by
  cases t <;> rfl

@[simp] theorem isWord_map {β : Type} (g : α → β) (t : Token α) : (t.map g).isWord = t.isWord := by
  cases t <;> rfl

theorem map_renumber {β : Type} {f : Token α → β} {g : Token Nat → β} (h : ∀ t n, g (t.map fun _ => n) = f t)
    (n : Nat) (ts : List (Token α)) : (renumber n ts).map g = ts.map f := by
  induction ts generalizing n with
  | nil => rfl
  | cons t ts ih => simp only [renumber, List.map_cons, h, ih]

theorem Apart.renumber {g : Token Nat → Bool} (h : Apart f ts) (hg : ∀ t n, g (t.map fun _ => n) = f t) (n : Nat) :
    Apart g (renumber n ts) := by
  have hmap : (ts.map f).IsChain fun x y => ¬(x = true ∧ y = true) := (List.isChain_map f).2 h
  rw [← map_renumber hg n ts] at hmap
  exact (List.isChain_map g).1 hmap

theorem IsSpaced.renumber (h : IsSpaced ts) (n : Nat) : IsSpaced (renumber n ts) := by
  have hmap : (Token.renumber n ts).map isSpace = ts.map isSpace := map_renumber (by simp) n ts
  have hhead := congrArg List.head? hmap
  have hlast := congrArg List.getLast? hmap
  simp only [List.head?_map, List.getLast?_map] at hhead hlast
  refine ⟨?_, fun t ht => ?_, fun t ht => ?_, h.apart.renumber (by simp) n⟩
  · rintro hnil
    simp only [hnil, List.map_nil, List.nil_eq, List.map_eq_nil_iff] at hmap
    exact h.ne_nil hmap
  · rw [Option.mem_def.1 ht] at hhead
    obtain ⟨u, hu, htu⟩ := Option.map_eq_some_iff.1 hhead.symm
    exact htu.symm.trans (h.head u hu)
  · rw [Option.mem_def.1 ht] at hlast
    obtain ⟨u, hu, htu⟩ := Option.map_eq_some_iff.1 hlast.symm
    exact htu.symm.trans (h.last u hu)

/-! ## Separating text -/

/-- The characters of spaces and symbols. -/
def punctuation : List Char :=
  [' ', ',', '.', '*', '(', ')', '=', '<', '>']

theorem exists_mem_punctuation (p : Profile) (paramText : α → String) {t : Token α} (h : t.isWord = false) :
    ∃ c ∈ (t.text p paramText).toList, c ∈ punctuation := by
  cases t with
  | symbol s => cases s <;> simp [text, Symbol.text, punctuation]
  | space => simp [text, punctuation]
  | _ => cases h

end Token

/-! ## Phrases -/

namespace Phrase

open Token

variable {p : Profile} {F : Fragment → Prop} {K : Keyword → Bool} {ts : List (Token Value)}

/-- One case for each way to make a phrase: spaces are put only between two phrases. -/
theorem isSpaced (h : Phrase p F K ts) : IsSpaced ts := by
  induction h with
  | word h =>
    refine .singleton ?_
    cases h <;> rfl
  | keyword => exact .singleton rfl
  | fragment _ h =>
    refine .of_forall (Fragment.tokens_ne_nil h) fun t ht => ?_
    obtain ⟨_, rfl⟩ | ⟨_, rfl⟩ := Fragment.raw_or_param_of_mem_tokens h t ht
    · rfl
    · rfl
  | spaced _ _ iha ihb => exact iha.append_space ihb
  | dotted _ _ iha ihb => exact iha.append ((IsSpaced.singleton rfl).append ihb)
  | listed _ _ iha ihb => exact iha.append ((IsSpaced.singleton rfl).append_space ihb)
  | enclosed _ ih => exact ih.parenthesized
  | call => exact (IsSpaced.singleton rfl).append (.of_forall (List.cons_ne_nil _ _) (by simp [isSpace]))
  | applied _ _ ih => exact (IsSpaced.singleton rfl).append ih.parenthesized

/-- One case for each way to make a phrase, without raw fragments: what is put between two phrases is no word. -/
theorem apart_isWord (h : Phrase p (fun _ => False) K ts) : Apart isWord ts := by
  induction h with
  | word | keyword => exact apart_singleton _
  | fragment hf => exact hf.elim
  | spaced _ _ iha ihb => exact iha.append_cons rfl ihb
  | dotted _ _ iha ihb => exact iha.append_cons rfl ihb
  | listed _ _ iha ihb => exact iha.append_cons rfl (ihb.cons rfl)
  | enclosed _ ih => exact ih.parenthesized rfl rfl
  | call => exact (apart_singleton _).append_cons rfl (Apart.cons rfl apart_nil)
  | applied _ _ ih => exact (apart_singleton _).append_cons rfl (ih.append_cons rfl apart_nil)

end Phrase

/-! ## Compiled queries -/

namespace Compiler

/-- Every compiled query has single spaces between its tokens and none at its ends. Without raw fragments at any
level no two words are neighbours, and the text between any two of them has a space or the character of a symbol. -/
theorem spacing_compile (c : Compiler) (q : Query) (r : Compiled) (h : c.compile q = .ok r) :
    Token.IsSpaced r.tokens ∧
      ((q.Everywhere fun clause => clause.fragments = []) →
        Token.Apart Token.isWord r.tokens ∧
          ∀ front t middle u back, r.tokens = front ++ t :: (middle ++ u :: back) →
            t.isWord = true → u.isWord = true →
            ∀ paramText, ∃ s ∈ (Token.textOf r.dialect.profile paramText middle).toList, s ∈ Token.punctuation) := by
  obtain ⟨tokens, htokens, -, rfl⟩ := compile_eq_ok_iff.1 h
  constructor
  · have hphrase : Phrase c.target.profile (fun _ => True) Keyword.any tokens :=
      Query.phrase_tokens (Query.everywhere_of_forall (fun _ _ _ => trivial) q) htokens
    exact hphrase.isSpaced.renumber 0
  · intro hq
    have hphrase : Phrase c.target.profile (fun _ => False) Keyword.any tokens := by
      refine Query.phrase_tokens (hq.mono fun clause hclause => ?_) htokens
      simp [hclause]
    have hapart := hphrase.apart_isWord.renumber (fun t n => Token.isWord_map (fun _ => n) t) 0
    refine ⟨hapart, fun front t middle u back hr ht hu paramText => ?_⟩
    have htokens : Token.renumber 0 tokens = front ++ t :: (middle ++ u :: back) := hr
    rw [htokens] at hapart
    obtain ⟨v, hv, hword⟩ := hapart.exists_between ht hu
    obtain ⟨s, hs, hseparator⟩ := Token.exists_mem_punctuation c.dialect.profile paramText hword
    refine ⟨s, ?_, hseparator⟩
    rw [Token.toList_textOf]
    exact List.mem_flatMap.2 ⟨v, hv, hs⟩

/-- A page of distinct rows without a limit, with no values to be equal to and a negated group. -/
def distinctNames : Query :=
  ⟨[.distinct, .select "name as n", .from (.table "users" none),
    .filter ⟨.and, true, .group [⟨.and, false, .inValues "id" []⟩, ⟨.or, false, .like "name" "a%" true⟩]⟩,
    .offset 10]⟩

theorem spacing_compile_distinctNames :
    ∃ r, (⟨.sqlite, {}⟩ : Compiler).compile distinctNames = .ok r ∧
      r.sql = "SELECT DISTINCT \"name\" AS \"n\" FROM \"users\" WHERE NOT (1 = 0 OR \"name\" LIKE ?) LIMIT -1 " ++
        "OFFSET ?" ∧
      Token.IsSpaced r.tokens ∧ Token.Apart Token.isWord r.tokens := by
  have hnames : distinctNames.Everywhere fun clause => clause.fragments = [] := by
    refine .mk ?_ ?_
    · simp only [List.forall_mem_cons]
      exact ⟨rfl, rfl, rfl, rfl, rfl, by simp⟩
    · simp [Clause.nested, Source.nested, Condition.nested, Predicate.nested, Condition.nestedList]
  obtain ⟨hspaced, hwords⟩ := spacing_compile ⟨.sqlite, {}⟩ distinctNames _ rfl
  exact ⟨_, rfl, rfl, hspaced, (hwords hnames).1⟩

end Compiler

end QueryCompiler
