-- SUMMARY: A reader that knows only the text finds the placeholder of every parameter, in order and no other, when raw fragments are legible.
import Mathlib.Data.List.Chain
import QueryCompiler.Proofs.Containment
import QueryCompiler.Proofs.Values

/-!
# Placeholders in the text

Whoever sends a statement binds its values by what stands in the text. A reader
of the text outside quoted identifiers looks for what a placeholder begins with
and takes all digits behind it. It finds the placeholders of the parameters and
nothing else, in their order, if no raw fragment gets in its way: a fragment may
put characters between the parameters that look like a placeholder themselves, or
a digit behind one that becomes part of its number. Fragments are written as they
are, so that the compiler does nothing against either.
-/

namespace QueryCompiler

/-! ## The reader -/

/-- The digits that a text begins with. -/
def Lexeme.digits : List Lexeme → List Char
  | .char c :: rest => if c.isDigit then c :: digits rest else []
  | _ => []

namespace PlaceholderForm

/-- What every placeholder begins with. -/
def lead : PlaceholderForm → List Char
  | .indexed lead => lead.toList
  | .dollar => ['$']
  | .mark => ['?']

/-- The first character of every placeholder. -/
def sign (form : PlaceholderForm) : Char :=
  form.lead.headD '?'

/-- Whether placeholders have numbers. -/
def isNumbered : PlaceholderForm → Bool
  | .indexed _ | .dollar => true
  | .mark => false

/-- The placeholder that a text begins with, as long as possible. -/
def match? (form : PlaceholderForm) (text : List Lexeme) : Option String :=
  if form.lead.map Lexeme.char <+: text then
    if form.isNumbered then
      match Lexeme.digits (text.drop form.lead.length) with
      | [] => none
      | number => some (String.ofList (form.lead ++ number))
    else some (String.ofList form.lead)
  else none

/-- The placeholders in a text. -/
def placeholders (form : PlaceholderForm) : List Lexeme → List String
  | [] => []
  | l :: rest => (form.match? (l :: rest)).toList ++ form.placeholders rest

/-- A text that does not go on with the number of a placeholder in front of it. -/
def Stops (form : PlaceholderForm) (rest : List Lexeme) : Prop :=
  form.isNumbered = true → Lexeme.digits rest = []

/-- Placeholders are told from what is around them by their first character. -/
structure HasSign (form : PlaceholderForm) : Prop where
  lead : ∃ tail, form.lead = form.sign :: tail ∧ form.sign ∉ tail
  notDigit : form.sign.isDigit = false

variable {form : PlaceholderForm} {a rest : List Lexeme} {number : List Char}

theorem stops_nil : form.Stops [] :=
  fun _ => rfl

theorem stops_cons {c : Char} (h : c.isDigit = false) : form.Stops (.char c :: rest) := by
  intro _
  simp [Lexeme.digits, h]

/-- Nothing is found where no placeholder begins. -/
theorem placeholders_append_of_notMem (h : form.HasSign) (ha : .char form.sign ∉ a) :
    form.placeholders (a ++ rest) = form.placeholders rest := by
  obtain ⟨tail, hlead, -⟩ := h.lead
  induction a with
  | nil => rfl
  | cons l a ih =>
    rw [List.mem_cons, not_or] at ha
    have hnone : form.match? (l :: (a ++ rest)) = none := by
      rw [match?, if_neg]
      rw [hlead, List.map_cons, List.cons_prefix_cons]
      exact fun hl => ha.1 hl.1
    rw [List.cons_append, placeholders, hnone, ih ha.2]
    rfl

theorem placeholders_chars_append (h : form.HasSign) {cs : List Char} (hcs : form.sign ∉ cs) :
    form.placeholders (cs.map .char ++ rest) = form.placeholders rest := by
  refine placeholders_append_of_notMem h fun hmem => ?_
  obtain ⟨c, hc, hsign⟩ := List.mem_map.1 hmem
  cases hsign
  exact hcs hc

theorem digits_append (hnumber : ∀ c ∈ number, c.isDigit = true) (hrest : Lexeme.digits rest = []) :
    Lexeme.digits (number.map .char ++ rest) = number := by
  induction number with
  | nil => exact hrest
  | cons c number ih =>
    rw [List.forall_mem_cons] at hnumber
    rw [List.map_cons, List.cons_append, Lexeme.digits, if_pos hnumber.1, ih hnumber.2]

/-- A placeholder is found as a whole when the text behind it does not go on with its number. -/
theorem placeholders_lead_append (h : form.HasSign) (hnumber : ∀ c ∈ number, c.isDigit = true)
    (hne : number = [] ↔ form.isNumbered = false) (hrest : form.Stops rest) :
    form.placeholders ((form.lead ++ number).map .char ++ rest)
      = String.ofList (form.lead ++ number) :: form.placeholders rest := by
  have hmatch : form.match? ((form.lead ++ number).map .char ++ rest)
      = some (String.ofList (form.lead ++ number)) := by
    rw [match?, if_pos ⟨number.map Lexeme.char ++ rest, by simp⟩]
    cases hform : form.isNumbered with
    | true =>
      have hdigits : Lexeme.digits (((form.lead ++ number).map Lexeme.char ++ rest).drop form.lead.length)
          = number := by
        rw [List.map_append, List.append_assoc, List.drop_left' (by simp)]
        exact digits_append hnumber (hrest hform)
      rw [if_pos rfl, hdigits]
      cases number with
      | nil => exact absurd (hne.1 rfl) (by simp [hform])
      | cons c number => rfl
    | false =>
      obtain rfl := hne.2 hform
      simp
  obtain ⟨tail, hlead, htail⟩ := h.lead
  have hskip : form.placeholders ((tail ++ number).map .char ++ rest) = form.placeholders rest := by
    refine placeholders_chars_append h fun hmem => ?_
    rcases List.mem_append.1 hmem with hmem | hmem
    · exact htail hmem
    · exact absurd (hnumber _ hmem) (by simp [h.notDigit])
  have hcons : (form.lead ++ number).map Lexeme.char ++ rest
      = .char form.sign :: ((tail ++ number).map .char ++ rest) := by
    rw [hlead]
    rfl
  rw [hcons] at hmatch ⊢
  rw [placeholders, hmatch, hskip]
  rfl

end PlaceholderForm

namespace Profile

variable {p : Profile} {rest : List Lexeme}

/-- A placeholder is what it begins with and, where placeholders have numbers, a number. -/
theorem exists_number (p : Profile) (i : Nat) :
    ∃ number, (p.placeholder i).toList = p.placeholderForm.lead ++ number ∧
      (∀ c ∈ number, c.isDigit = true) ∧ (number = [] ↔ p.placeholderForm.isNumbered = false) := by
  have hdigits (n : Nat) : ∀ c ∈ (toString n).toList, c.isDigit = true := by
    intro c hc
    refine Nat.isDigit_of_mem_toDigits (b := 10) (n := n) (by decide) (by decide) ?_
    simpa using hc
  unfold placeholder
  cases p.placeholderForm with
  | indexed lead =>
    exact ⟨_, String.toList_append, hdigits i, by simp [PlaceholderForm.isNumbered]⟩
  | dollar =>
    exact ⟨_, String.toList_append, hdigits ((i + 1) % 2 ^ 64), by simp [PlaceholderForm.isNumbered]⟩
  | mark => exact ⟨[], by simp [PlaceholderForm.lead], by simp, by simp [PlaceholderForm.isNumbered]⟩

theorem placeholders_placeholder (h : p.placeholderForm.HasSign) (i : Nat) (hrest : p.placeholderForm.Stops rest) :
    p.placeholderForm.placeholders ((p.placeholder i).toList.map .char ++ rest)
      = p.placeholder i :: p.placeholderForm.placeholders rest := by
  obtain ⟨number, htext, hnumber, hne⟩ := p.exists_number i
  rw [htext, PlaceholderForm.placeholders_lead_append h hnumber hne hrest, ← htext, String.ofList_toList]

end Profile

/-! ## Words without placeholders -/

namespace Dialect

variable {d : Dialect}

/-- The first character of the placeholders of a dialect. -/
def sign (d : Dialect) : Char :=
  d.profile.placeholderForm.sign

/-- A word in which no placeholder of any dialect begins. -/
def IsSignless (word : String) : Prop :=
  ∀ c ∈ word.toList, c ∉ ['@', '$', '?', ':']

instance (word : String) : Decidable (IsSignless word) :=
  List.decidableBAll (· ∉ ['@', '$', '?', ':']) word.toList

theorem hasSign (d : Dialect) : d.profile.placeholderForm.HasSign := by
  cases d
  case tsql => exact ⟨⟨['p'], by decide⟩, by decide⟩
  case postgres => exact ⟨⟨[], by decide⟩, by decide⟩
  case mysql => exact ⟨⟨[], by decide⟩, by decide⟩
  case sqlite => exact ⟨⟨[], by decide⟩, by decide⟩
  case oracle => exact ⟨⟨['p'], by decide⟩, by decide⟩

theorem IsSignless.sign_notMem {word : String} (h : IsSignless word) (d : Dialect) : d.sign ∉ word.toList := by
  intro hmem
  exact h _ hmem (by cases d <;> decide)

theorem isSignless_keyword (d : Dialect) (k : Keyword) : IsSignless (k.text d.profile) := by
  have hsigns : ['@', '$', '?', ':'].all (fun c => !(c.isUpper || c == ' ')) = true := by decide
  intro c hc hsign
  exact d.notMem_keyword (by simpa using List.all_eq_true.1 hsigns c hsign) k hc

theorem isSignless_allRows {rows : String} (h : d.profile.loneOffset = .afterLimit rows) : IsSignless rows := by
  cases d <;> cases h <;> decide

/-- A separator is one character, which goes on neither with a quoted identifier nor with a number. -/
theorem separator_cases (d : Dialect) {word : String} (h : word ∈ separators) :
    ∃ c, word.toList = [c] ∧ c ≠ d.profile.quotes.closing ∧ c.isDigit = false ∧ IsSignless word := by
  simp only [separators, List.mem_cons, List.not_mem_nil, or_false] at h
  rcases h with rfl | rfl | rfl | rfl
  · exact ⟨' ', by decide, by cases d <;> decide, by decide, by decide⟩
  · exact ⟨'.', by decide, by cases d <;> decide, by decide, by decide⟩
  · exact ⟨',', by decide, by cases d <;> decide, by decide, by decide⟩
  · exact ⟨')', by decide, by cases d <;> decide, by decide, by decide⟩

theorem isSignless_symbol (s : Symbol) : IsSignless s.text := by
  cases s <;> decide

end Dialect

theorem IsFunction.isSignless {f : String} (h : IsFunction f) : Dialect.IsSignless f := by
  cases h with
  | aggregate a => cases a <;> decide
  | lower | rowNumber => decide

/-! ## Texts of tokens -/

namespace Token

variable {p : Profile}

@[simp] theorem toList_placeholderText_nil : (placeholderText p []).toList = [] := by
  simp [placeholderText, toList_textOf]

@[simp] theorem toList_placeholderText_cons (t : Token Nat) (ts : List (Token Nat)) :
    (placeholderText p (t :: ts)).toList = (t.text p p.placeholder).toList ++ (placeholderText p ts).toList := by
  simp [placeholderText, toList_textOf]

@[simp] theorem toList_placeholderText_append (a b : List (Token Nat)) :
    (placeholderText p (a ++ b)).toList = (placeholderText p a).toList ++ (placeholderText p b).toList := by
  simp [placeholderText, toList_textOf]

end Token

/-! ## Legible fragments -/

namespace Fragment

def Mark.isDigit : Mark → Bool
  | .char c => c.isDigit
  | .marker => false

/-- A fragment that adds nothing to the text that reads as a quoted identifier, as a placeholder or as a
part of the number in front of it. -/
structure IsLegible (p : Profile) (f : Fragment) : Prop where
  opening : .char p.quotes.opening ∉ marks f.text.toList
  sign : .char p.placeholderForm.sign ∉ marks f.text.toList
  digits : p.placeholderForm.isNumbered = true →
    (marks f.text.toList).IsChain fun m next => m = .marker → next.isDigit = false

instance (p : Profile) (f : Fragment) : Decidable (f.IsLegible p) :=
  decidable_of_iff (_ ∧ _ ∧ _) ⟨fun h => ⟨h.1, h.2.1, h.2.2⟩, fun h => ⟨h.opening, h.sign, h.digits⟩⟩

variable {p : Profile} {list : List Mark}

/-- The characters of a fragment, with placeholders from that of `n` on at the markers. -/
def spell (p : Profile) (n : Nat) : List Mark → List Char
  | [] => []
  | .char c :: rest => c :: spell p n rest
  | .marker :: rest => (p.placeholder n).toList ++ spell p (n + 1) rest

theorem toList_placeholderText_fill_cons (c : Char) (n : Nat) (parts : List Part) (values : List Value) :
    (Token.placeholderText p (Token.renumber n (fill (Mark.cons (.char c) parts) values))).toList
      = c :: (Token.placeholderText p (Token.renumber n (fill parts values))).toList := by
  cases parts with
  | nil => simp [Mark.cons, fill, Token.text]
  | cons part rest => cases part <;> simp [Mark.cons, fill, Token.text]

/-- The text of a fragment is its characters, with the placeholders of its parameters at the markers. -/
theorem toList_placeholderText_fill {values : List Value} (h : list.count .marker = values.length) (n : Nat) :
    (Token.placeholderText p (Token.renumber n (fill (list.foldr Mark.cons []) values))).toList
      = spell p n list := by
  induction list generalizing values n with
  | nil => simp [fill, spell]
  | cons m list ih =>
    rw [List.foldr_cons]
    cases m with
    | char c =>
      rw [toList_placeholderText_fill_cons, ih (by simpa using h)]
      rfl
    | marker =>
      cases values with
      | nil => simp at h
      | cons v values =>
        have hcount : list.count .marker = values.length := by simpa using h
        rw [spell, ← ih hcount (n + 1), Mark.cons, fill, Token.renumber, Token.toList_placeholderText_cons]
        rfl

theorem mem_spell {c : Char} {n : Nat} (h : c ∈ spell p n list) :
    .char c ∈ list ∨ ∃ i, c ∈ (p.placeholder i).toList := by
  induction list generalizing n with
  | nil => cases h
  | cons m list ih =>
    cases m with
    | char d =>
      rcases List.mem_cons.1 h with rfl | h
      · exact .inl List.mem_cons_self
      · exact (ih h).imp_left (List.mem_cons_of_mem _)
    | marker =>
      rcases List.mem_append.1 h with h | h
      · exact .inr ⟨n, h⟩
      · exact (ih h).imp_left (List.mem_cons_of_mem _)

/-- The placeholders in a legible fragment are those of its parameters. -/
theorem placeholders_spell (hp : p.placeholderForm.HasSign) (hsign : .char p.placeholderForm.sign ∉ list)
    (hdigits : p.placeholderForm.isNumbered = true →
      list.IsChain fun m next => m = .marker → next.isDigit = false)
    (n : Nat) {after : List Lexeme} (hafter : p.placeholderForm.Stops after) :
    p.placeholderForm.placeholders ((spell p n list).map .char ++ after)
      = (List.range' n (list.count .marker)).map p.placeholder ++ p.placeholderForm.placeholders after := by
  induction list generalizing n with
  | nil => simp [spell]
  | cons m list ih =>
    rw [List.mem_cons, not_or] at hsign
    have hrest (n : Nat) := ih hsign.2 (fun hform => (hdigits hform).tail) n
    cases m with
    | char c =>
      have hc : p.placeholderForm.sign ∉ [c] := by
        intro hmem
        obtain rfl := List.mem_singleton.1 hmem
        exact hsign.1 rfl
      rw [spell, List.count_cons_of_ne (by simp), ← hrest n]
      exact PlaceholderForm.placeholders_chars_append hp hc
    | marker =>
      have hstops : p.placeholderForm.Stops ((spell p (n + 1) list).map .char ++ after) := by
        cases list with
        | nil => exact hafter
        | cons next list =>
          cases next with
          | char c =>
            intro hform
            exact PlaceholderForm.stops_cons ((List.isChain_cons_cons.1 (hdigits hform)).1 rfl) hform
          | marker =>
            obtain ⟨tail, hlead, -⟩ := hp.lead
            obtain ⟨number, htext, -⟩ := p.exists_number (n + 1)
            rw [spell, htext, hlead]
            exact PlaceholderForm.stops_cons hp.notDigit
      have hfound := Profile.placeholders_placeholder hp n hstops
      rw [hrest] at hfound
      simpa [spell, List.range'_succ] using hfound

end Fragment

/-! ## Legible tokens -/

namespace Token

variable {d : Dialect} {a b ts : List (Token Nat)} {t : Token Nat}

/-- What a reader sees of a token: one quoted identifier, or the characters of its text. There is a
placeholder in it exactly when the token is a parameter, and then it is that of the parameter. -/
structure IsSeenAs (d : Dialect) (t : Token Nat) (part : List Lexeme) : Prop where
  text : part = (t.text d.profile d.profile.placeholder).toList.map .char ∨
    ∃ cs, (t.text d.profile d.profile.placeholder).toList = d.profile.quotes.quote cs ∧ part = [.name cs]
  placeholders : d.profile.placeholderForm.placeholders part = t.param?.toList.map d.profile.placeholder

/-- Tokens are seen as these parts, one by one, in front of every text that does not go on with a closing
quote. The placeholders in them are those of the parameters if the text does not go on with a number. -/
structure AreSeenAs (d : Dialect) (ts : List (Token Nat)) (parts : List (List Lexeme)) : Prop where
  seen : List.Forall₂ (IsSeenAs d) ts parts
  read : ∀ rest, d.profile.quotes.AtBoundary rest →
    d.profile.quotes.read .outside ((placeholderText d.profile ts).toList ++ rest)
      = (d.profile.quotes.read .outside rest).map (parts.flatten ++ ·)
  placeholders : ∀ after, d.profile.placeholderForm.Stops after →
    d.profile.placeholderForm.placeholders (parts.flatten ++ after)
      = (params ts).map d.profile.placeholder ++ d.profile.placeholderForm.placeholders after

namespace AreSeenAs

variable {left right : List (List Lexeme)}

/-- A word in front that has no placeholder in it. -/
theorem cons (ht : d.profile.IsVocabulary (t.text d.profile d.profile.placeholder))
    (hsign : Dialect.IsSignless (t.text d.profile d.profile.placeholder)) (hparam : t.param? = none)
    (hb : AreSeenAs d b right) :
    AreSeenAs d (t :: b) ((t.text d.profile d.profile.placeholder).toList.map .char :: right) := by
  have hnone (rest : List Lexeme) : d.profile.placeholderForm.placeholders
      ((t.text d.profile d.profile.placeholder).toList.map .char ++ rest)
      = d.profile.placeholderForm.placeholders rest :=
    PlaceholderForm.placeholders_chars_append d.hasSign (hsign.sign_notMem d)
  refine ⟨.cons ⟨.inl rfl, ?here⟩ hb.seen, fun rest hrest => ?read, fun after hafter => ?there⟩
  case here =>
    have hnone := hnone []
    rw [List.append_nil] at hnone
    rw [hnone, hparam]
    rfl
  case read =>
    rw [toList_placeholderText_cons, List.append_assoc,
      QuotePair.read_append_of_notMem (d.quotesApart.opening _ ht), hb.read rest hrest, Option.map_map]
    simp [Function.comp_def]
  case there =>
    rw [List.flatten_cons, List.append_assoc, hnone, hb.placeholders after hafter, params_cons, hparam]
    rfl

theorem append (ha : AreSeenAs d a left) (hb : AreSeenAs d b right)
    (hstart : ∀ rest, d.profile.quotes.AtBoundary ((placeholderText d.profile b).toList ++ rest))
    (hstops : ∀ after, d.profile.placeholderForm.Stops (right.flatten ++ after)) :
    AreSeenAs d (a ++ b) (left ++ right) := by
  refine ⟨List.rel_append ha.seen hb.seen, fun rest hrest => ?read, fun after hafter => ?placeholders⟩
  case read =>
    rw [toList_placeholderText_append, List.append_assoc, ha.read _ (hstart rest), hb.read rest hrest,
      Option.map_map]
    simp [Function.comp_def]
  case placeholders =>
    rw [List.flatten_append, List.append_assoc, ha.placeholders _ (hstops after), hb.placeholders after hafter]
    simp

end AreSeenAs

/-- A reader sees the tokens apart and finds their parameters. -/
def Legible (d : Dialect) (ts : List (Token Nat)) : Prop :=
  ∃ parts, AreSeenAs d ts parts

namespace Legible

theorem nil : Legible d [] :=
  ⟨[], .nil, fun rest _ => by simp, fun after _ => rfl⟩

theorem cons (ht : d.profile.IsVocabulary (t.text d.profile d.profile.placeholder))
    (hsign : Dialect.IsSignless (t.text d.profile d.profile.placeholder)) (hparam : t.param? = none)
    (hb : Legible d b) : Legible d (t :: b) := by
  obtain ⟨parts, hparts⟩ := hb
  exact ⟨_, hparts.cons ht hsign hparam⟩

theorem name (cs : List Char) (ht : (t.text d.profile d.profile.placeholder).toList = d.profile.quotes.quote cs)
    (hparam : t.param? = none) : Legible d [t] := by
  have hnone (after : List Lexeme) : d.profile.placeholderForm.placeholders ([.name cs] ++ after)
      = d.profile.placeholderForm.placeholders after :=
    PlaceholderForm.placeholders_append_of_notMem d.hasSign (by simp)
  refine ⟨[[.name cs]], .cons ⟨.inr ⟨cs, ht, rfl⟩, ?here⟩ .nil, fun rest hrest => ?read, fun after _ => ?there⟩
  case here =>
    rw [hparam]
    exact hnone []
  case read =>
    rw [toList_placeholderText_cons, ht, toList_placeholderText_nil, List.append_nil,
      QuotePair.read_quote_append hrest]
    rfl
  case there =>
    rw [params_cons, hparam]
    exact hnone after

theorem param (d : Dialect) (n : Nat) : Legible d [.param n] := by
  have hfound (after : List Lexeme) (hafter : d.profile.placeholderForm.Stops after) :=
    Profile.placeholders_placeholder d.hasSign n hafter
  refine ⟨[(d.profile.placeholder n).toList.map .char], .cons ⟨.inl rfl, ?here⟩ .nil, fun rest _ => ?read,
    fun after hafter => ?there⟩
  case here =>
    have hfound := hfound [] PlaceholderForm.stops_nil
    rwa [List.append_nil] at hfound
  case read =>
    rw [toList_placeholderText_cons, toList_placeholderText_nil, List.append_nil]
    have hopening := d.quotesApart.opening _ (.placeholder n)
    rw [show (Token.param n).text d.profile d.profile.placeholder = d.profile.placeholder n from rfl,
      QuotePair.read_append_of_notMem hopening]
    simp
  case there =>
    rw [List.flatten_singleton, hfound after hafter]
    rfl

/-- Tokens on both sides of a separator. -/
theorem separated (ht : t.text d.profile d.profile.placeholder ∈ separators) (hparam : t.param? = none)
    (ha : Legible d a) (hb : Legible d b) : Legible d (a ++ t :: b) := by
  obtain ⟨left, hleft⟩ := ha
  obtain ⟨right, hright⟩ := hb
  obtain ⟨c, htext, hclosing, hdigit, hsign⟩ := Dialect.separator_cases d ht
  have hright := hright.cons (.of_mem_separators ht) hsign hparam
  refine ⟨_, hleft.append hright (fun rest => ?start) fun after => ?stops⟩
  case start =>
    rw [toList_placeholderText_cons, htext]
    exact QuotePair.atBoundary_cons hclosing
  case stops =>
    rw [htext]
    exact PlaceholderForm.stops_cons hdigit

theorem parenthesized (ha : Legible d a) : Legible d (parenthesized a) := by
  have hclosed : Legible d (a ++ .symbol .rparen :: []) :=
    separated (by simp [text, Symbol.text, separators]) rfl ha nil
  exact cons (.symbol .lparen) (Dialect.isSignless_symbol .lparen) rfl hclosed

end Legible

end Token

/-! ## Fragments are legible -/

namespace Fragment

variable {d : Dialect} {list : List Mark} {parts : List Part} {values : List Value}

theorem char_mem_of_text_mem_foldr {cs : List Char} (h : .text cs ∈ list.foldr Mark.cons []) :
    ∀ c ∈ cs, .char c ∈ list := by
  induction list generalizing cs with
  | nil => cases h
  | cons m list ih =>
    have hlater {cs : List Char} (h : .text cs ∈ list.foldr Mark.cons []) : ∀ c ∈ cs, .char c ∈ m :: list :=
      fun c hc => List.mem_cons_of_mem _ (ih h c hc)
    rw [List.foldr_cons] at h
    cases m with
    | marker =>
      rcases List.mem_cons.1 h with h | h
      · cases h
      · exact hlater h
    | char e =>
      -- The character joins the first piece, or is a piece of its own.
      obtain ⟨first, hcs | hcs, hfirst⟩ : ∃ first, (cs = e :: first ∨ .text cs ∈ list.foldr Mark.cons []) ∧
          ∀ c ∈ first, .char c ∈ Mark.char e :: list := by
        cases hparts : list.foldr Mark.cons [] with
        | nil =>
          rw [hparts] at h
          exact ⟨[], .inl (Part.text.inj (List.mem_singleton.1 h)), by simp⟩
        | cons part rest =>
          rw [hparts] at h hlater
          cases part with
          | text first =>
            refine ⟨first, ?_, hlater List.mem_cons_self⟩
            rcases List.mem_cons.1 h with h | h
            · exact .inl (Part.text.inj h)
            · exact .inr (List.mem_cons_of_mem _ h)
          | marker =>
            refine ⟨[], ?_, by simp⟩
            rcases List.mem_cons.1 h with h | h
            · exact .inl (Part.text.inj h)
            · exact .inr h
      · subst hcs
        exact List.forall_mem_cons.2 ⟨List.mem_cons_self, hfirst⟩
      · exact hlater hcs

/-- The pieces of a text have no other characters than its marks. -/
theorem char_mem_of_text_mem_parts {text cs : List Char} (h : .text cs ∈ Fragment.parts text) :
    ∀ c ∈ cs, .char c ∈ marks text := by
  unfold Fragment.parts at h
  split at h
  · obtain rfl := Part.text.inj (List.mem_singleton.1 h)
    simp
  · exact char_mem_of_text_mem_foldr h

theorem toList_placeholderText_parts {text : List Char} (h : (marks text).count .marker = values.length) (n : Nat) :
    (Token.placeholderText d.profile (Token.renumber n (fill (Fragment.parts text) values))).toList
      = spell d.profile n (marks text) := by
  rw [← toList_placeholderText_fill h]
  unfold Fragment.parts
  split
  next hnil =>
    rw [hnil]
    simp [fill, Token.text]
  next => rfl

/-- Each token of a fragment is seen by its characters. -/
theorem isSeenAs_fill (htext : ∀ cs, .text cs ∈ parts → d.sign ∉ cs) (n : Nat) :
    ∀ t ∈ Token.renumber n (fill parts values),
      Token.IsSeenAs d t ((t.text d.profile d.profile.placeholder).toList.map .char) := by
  induction parts generalizing n values with
  | nil => simp [fill]
  | cons part rest ih =>
    have hrest := fun cs hcs => htext cs (List.mem_cons_of_mem _ hcs)
    cases part with
    | text cs =>
      refine List.forall_mem_cons.2 ⟨⟨.inl rfl, ?_⟩, ih hrest _⟩
      have hnone : d.profile.placeholderForm.placeholders (cs.map .char ++ []) = [] :=
        PlaceholderForm.placeholders_chars_append d.hasSign (htext cs List.mem_cons_self)
      simpa [Token.map, Token.text, Token.param?] using hnone
    | marker =>
      cases values with
      | nil => exact ih hrest n
      | cons v values =>
        refine List.forall_mem_cons.2 ⟨⟨.inl rfl, ?_⟩, ih hrest _⟩
        have hfound := Profile.placeholders_placeholder d.hasSign n PlaceholderForm.stops_nil
        rwa [List.append_nil] at hfound

/-- A legible fragment is seen as it is written, with placeholders at its markers. -/
theorem legible_tokens {f : Fragment} (hf : f.IsLegible d.profile) {ts : List (Token Value)}
    (h : f.tokens = .ok ts) (n : Nat) : Token.Legible d (Token.renumber n ts) := by
  have hbindings := params_tokens h
  unfold tokens at h
  split at h
  next hcount =>
    cases h
    have htext := toList_placeholderText_parts (d := d) hcount n
    have hflatten : ((Token.renumber n (fill (Fragment.parts f.text.toList) f.bindings)).map fun t =>
          (t.text d.profile d.profile.placeholder).toList.map Lexeme.char).flatten
        = (spell d.profile n (marks f.text.toList)).map .char := by
      rw [← htext, Token.placeholderText, Token.toList_textOf, List.map_flatMap, List.flatMap_def]
    refine ⟨_, List.forall₂_map_right_iff.2 (List.forall₂_same.2 (isSeenAs_fill (fun cs hcs hsign => ?sign) n)),
      fun rest _ => ?read, fun after hafter => ?placeholders⟩
    case sign => exact hf.sign (char_mem_of_text_mem_parts hcs _ hsign)
    case read =>
      have hopening : d.profile.quotes.opening ∉ spell d.profile n (marks f.text.toList) := by
        intro hmem
        rcases mem_spell hmem with hmem | ⟨i, hmem⟩
        · exact hf.opening hmem
        · exact d.quotesApart.opening _ (.placeholder i) hmem
      rw [htext, QuotePair.read_append_of_notMem hopening, hflatten]
    case placeholders =>
      rw [hflatten, placeholders_spell d.hasSign hf.sign hf.digits n hafter, Token.params_renumber, hbindings]
      exact congrArg (fun k => (List.range' n k).map _ ++ _) hcount
  next => cases h

end Fragment

/-! ## Phrases are legible -/

section

variable {d : Dialect}

theorem Profile.IsWord.legible {t : Token Value} (h : d.profile.IsWord t) (n : Nat) :
    Token.Legible d [t.map fun _ => n] := by
  cases h with
  | ident name =>
    refine .name name.toList ?_ rfl
    simp [Token.map, Token.text, Profile.quoteIdentifier]
  | quoted hquoted =>
    obtain ⟨name, rfl⟩ := QuotePair.exists_quote_of_isQuoted hquoted
    refine .name name ?_ rfl
    simp [Token.map, Token.text]
  | star => exact .cons (.symbol .star) (Dialect.isSignless_symbol .star) rfl .nil
  | comparison op => exact .cons (.symbol op.symbol) (Dialect.isSignless_symbol op.symbol) rfl .nil
  | param v => exact .param d n
  | zero => exact .cons .zero (show Dialect.IsSignless "0" by decide) rfl .nil
  | one => exact .cons .one (show Dialect.IsSignless "1" by decide) rfl .nil
  | rowNum => exact .cons .rowNum (show Dialect.IsSignless "ROWNUM" by decide) rfl .nil
  | allRows hrows => exact .cons (.allRows hrows) (Dialect.isSignless_allRows hrows) rfl .nil

theorem Phrase.legible {K : Keyword → Bool} {ts : List (Token Value)}
    (h : Phrase d.profile (Fragment.IsLegible d.profile) K ts) (n : Nat) :
    Token.Legible d (Token.renumber n ts) := by
  have hname {f : String} (hf : IsFunction f) {b : List (Token Nat)} (hb : Token.Legible d b) :
      Token.Legible d (.function f :: b) := by
    refine .cons ?_ ?_ rfl hb
    · have hword := Profile.IsVocabulary.function (p := d.profile) hf
      rwa [← hf.upper_eq] at hword
    · have hword := hf.isSignless
      rwa [← hf.upper_eq] at hword
  induction h generalizing n with
  | word h => exact h.legible n
  | @keyword _ k => exact .cons (.keyword k) (Dialect.isSignless_keyword d k) rfl .nil
  | fragment hf h => exact Fragment.legible_tokens hf h n
  | spaced _ _ iha ihb =>
    rw [Token.renumber_append]
    exact .separated (by simp [separators, Token.map, Token.text]) rfl (iha n) (ihb _)
  | dotted _ _ iha ihb =>
    rw [Token.renumber_append]
    exact .separated (by simp [separators, Token.map, Token.text, Symbol.text]) rfl (iha n) (ihb _)
  | listed _ _ iha ihb =>
    rw [Token.renumber_append]
    exact .separated (by simp [separators, Token.map, Token.text, Symbol.text]) rfl (iha n)
      (.cons .space (show Dialect.IsSignless " " by decide) rfl (ihb _))
  | enclosed _ ih =>
    rw [Token.renumber_parenthesized]
    exact (ih n).parenthesized
  | call hf => exact hname hf Token.Legible.nil.parenthesized
  | applied hf _ ih =>
    rw [Token.renumber, Token.renumber_parenthesized]
    exact hname hf (ih _).parenthesized

end

/-! ## Compiled texts -/

namespace Compiler

/-- When all raw fragments are legible, a reader of the text outside quoted identifiers sees the tokens one
by one, finds a placeholder in each parameter and in no other token, and altogether the placeholders of the
bindings in their order. -/
theorem placeholders_compile {c : Compiler} {q : Query} {r : Compiled} (h : c.compile q = .ok r)
    (hq : q.Everywhere fun clause => ∀ f ∈ clause.fragments, f.IsLegible c.dialect.profile) :
    ∃ parts, List.Forall₂ (Token.IsSeenAs c.dialect) r.tokens parts ∧
      c.dialect.profile.quotes.lexemes? r.sql.toList = some parts.flatten ∧
      c.dialect.profile.placeholderForm.placeholders parts.flatten = r.placeholders ∧
      Token.params r.tokens = List.range r.bindings.size := by
  obtain ⟨tokens, htokens, -, rfl⟩ := compile_eq_ok_iff.1 h
  obtain ⟨parts, hseen, hread, hplaceholders⟩ := (Query.phrase_tokens hq htokens).legible 0
  have hread := hread [] QuotePair.atBoundary_nil
  have hplaceholders := hplaceholders [] PlaceholderForm.stops_nil
  rw [List.append_nil] at hread hplaceholders
  have hparams : Token.params (Token.renumber 0 tokens) = List.range (Token.params tokens).length := by
    rw [Token.params_renumber, List.range_eq_range']
  refine ⟨parts, hseen, ?text, ?found, hparams⟩
  case text =>
    rw [QuotePair.lexemes?, Compiled.sql, hread]
    simp [QuotePair.read]
  case found =>
    rw [hplaceholders, hparams]
    exact List.append_nil _

/-- Fragments with markers, an escaped question mark and digits apart from the markers. -/
def taggedRows : Query :=
  ⟨[.from (.table "t" none), .filter ⟨.and, false, .raw ⟨"tags \\? ? AND size > ?+10", [.string "a", .int 1]⟩⟩,
    .filter ⟨.and, false, .compare "what?" .eq (.value (.int 2))⟩]⟩

theorem placeholders_compile_taggedRows :
    ∃ r ls, ({ dialect := .postgres } : Compiler).compile taggedRows = .ok r ∧
      r.sql = "SELECT * FROM \"t\" WHERE tags ? $1 AND size > $2+10 AND \"what?\" = $3" ∧
      Dialect.postgres.profile.quotes.lexemes? r.sql.toList = some ls ∧
      Dialect.postgres.profile.placeholderForm.placeholders ls = ["$1", "$2", "$3"] := by
  have hlegible : taggedRows.Everywhere fun clause =>
      ∀ f ∈ clause.fragments, f.IsLegible Dialect.postgres.profile := by
    refine .mk ?_ ?_
    · simp only [List.forall_mem_cons, List.not_mem_nil]
      exact ⟨by simp [Clause.fragments, Source.fragments], by decide, by decide, by simp⟩
    · simp [Clause.nested, Source.nested, Condition.nested, Predicate.nested, Operand.nested]
  obtain ⟨parts, -, hread, hfound, -⟩ := placeholders_compile (c := { dialect := .postgres }) rfl hlegible
  exact ⟨_, parts.flatten, rfl, rfl, hread, hfound⟩

/-- A digit behind a marker goes on with the number of its placeholder, and an escaped question mark is a
placeholder without a binding where question marks are placeholders. -/
theorem not_placeholders_verbatimText :
    (∃ r ls, ({ dialect := .postgres } : Compiler).compile
        ⟨[.from (.table "t" none), .filter ⟨.and, false, .raw ⟨"a = ?0", [.int 1]⟩⟩]⟩ = .ok r ∧
      Dialect.postgres.profile.quotes.lexemes? r.sql.toList = some ls ∧
      Dialect.postgres.profile.placeholderForm.placeholders ls = ["$10"] ∧ r.placeholders = ["$1"]) ∧
    ∃ r ls, ({ dialect := .sqlite } : Compiler).compile
        ⟨[.from (.table "t" none), .filter ⟨.and, false, .raw ⟨"a \\? b", []⟩⟩]⟩ = .ok r ∧
      Dialect.sqlite.profile.quotes.lexemes? r.sql.toList = some ls ∧
      Dialect.sqlite.profile.placeholderForm.placeholders ls = ["?"] ∧ r.placeholders = [] := by
  exact ⟨⟨_, _, rfl, rfl, by decide, by decide⟩, ⟨_, _, rfl, rfl, by decide, by decide⟩⟩

end Compiler

end QueryCompiler
