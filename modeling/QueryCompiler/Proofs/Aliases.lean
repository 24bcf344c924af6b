-- SUMMARY: A reader that finds the aliases of a text by what stands in front of them, and how names are told of texts put together from parts.
import QueryCompiler.Identifier.Reference
import QueryCompiler.Proofs.Binding

/-!
# Aliases

Behind `AS` stands an alias, unless a parenthesis follows: then the common table
expression in it has its name in front of `AS`. Where a table takes its alias
without `AS`, an alias is a name that only a space separates from the name or the
parenthesis before it. `Token.aliases` finds all of these in a text. `Naming`
says of a part of a text when its names are right, whatever stands around it.
-/

namespace QueryCompiler

/-! ## Reading aliases -/

namespace Token

variable {α : Type}

/-- One segment of a name, or a star. -/
def isName : Token α → Bool
  | .ident _ | .raw _ | .symbol .star => true
  | _ => false

/-- What an alias may be for: it ends a name, or a nested query. -/
def endsSource (t : Token α) : Bool :=
  t.isName || match t with
    | .symbol .rparen => true
    | _ => false

/-- The alias that is told by a token, behind the tokens `before` with the last one first. -/
def alias? (p : Profile) (before : List (Token α)) (t : Token α) : Option (Token α) :=
  match before with
  | .space :: .keyword .as :: rest =>
    match t, rest with
    | .symbol .lparen, .space :: name :: _ => some name
    | t, _ => some t
  | .space :: last :: _ => if !p.tableAliasAs && last.endsSource && t.isName then some t else none
  | _ => none

/-- The aliases in a text behind the tokens `before`. -/
def aliasesFrom (p : Profile) (before : List (Token α)) : List (Token α) → List (Token α)
  | [] => []
  | t :: rest => (alias? p before t).toList ++ aliasesFrom p (t :: before) rest

/-- The aliases in a text, in their order. -/
def aliases (p : Profile) (ts : List (Token α)) : List (Token α) :=
  aliasesFrom p [] ts

/-- A quoted identifier: a segment that is still to be quoted, or a text that is quoted already. -/
def IsIdentifier (p : Profile) : Token α → Prop
  | .ident name => name ≠ ""
  | .raw text => p.quotes.isQuoted text.toList = true
  | _ => False

instance (p : Profile) (t : Token α) : Decidable (t.IsIdentifier p) :=
  match t with
  | .ident name => inferInstanceAs (Decidable (name ≠ ""))
  | .raw text => inferInstanceAs (Decidable (p.quotes.isQuoted text.toList = true))
  | .keyword _ | .symbol _ | .space | .litInt _ | .function _ | .param _ => inferInstanceAs (Decidable False)

/-- No segment of a name is empty, and every alias is a quoted identifier. `before` stands in front. -/
structure NamedFrom (p : Profile) (before ts : List (Token α)) : Prop where
  segments : .ident "" ∉ ts
  aliases : ∀ t ∈ aliasesFrom p before ts, t.IsIdentifier p

/-- The names of a whole text are right. -/
def WellNamed (p : Profile) (ts : List (Token α)) : Prop :=
  NamedFrom p [] ts

instance [DecidableEq α] (p : Profile) (ts : List (Token α)) : Decidable (WellNamed p ts) :=
  decidable_of_iff (.ident "" ∉ ts ∧ ∀ t ∈ aliases p ts, t.IsIdentifier p)
    ⟨fun h => ⟨h.1, h.2⟩, fun h => ⟨h.segments, h.aliases⟩⟩

section

variable {p : Profile} {before rest a b : List (Token α)} {last t : Token α}

/-! ## One token -/

/-- Behind `AS`. -/
theorem alias?_as (ht : t ≠ .symbol .lparen) : alias? p (.space :: .keyword .as :: rest) t = some t := by
  unfold alias?
  split <;> simp_all

/-- Behind a space and any other token. -/
theorem alias?_space (hlast : last ≠ .keyword .as) : alias? p (.space :: last :: rest) t =
    if !p.tableAliasAs && last.endsSource && t.isName then some t else none := by
  unfold alias?
  split <;> simp_all

/-- Behind anything else. -/
theorem alias?_of_ne_space (hlast : last ≠ .space) : alias? p (last :: rest) t = none := by
  unfold alias?
  split <;> simp_all

/-! ## Texts from parts -/

@[simp] theorem namedFrom_nil : NamedFrom p before [] :=
  ⟨by simp, by simp [aliasesFrom]⟩

theorem namedFrom_cons : NamedFrom p before (t :: a) ↔
    (t ≠ .ident "" ∧ ∀ u ∈ alias? p before t, u.IsIdentifier p) ∧ NamedFrom p (t :: before) a := by
  constructor
  · rintro ⟨hsegments, haliases⟩
    rw [List.mem_cons, not_or] at hsegments
    rw [aliasesFrom, List.forall_mem_append] at haliases
    exact ⟨⟨Ne.symm hsegments.1, by simpa using haliases.1⟩, hsegments.2, haliases.2⟩
  · rintro ⟨⟨ht, hhere⟩, hrest⟩
    refine ⟨?_, ?_⟩
    · rw [List.mem_cons, not_or]
      exact ⟨ht.symm, hrest.segments⟩
    · rw [aliasesFrom, List.forall_mem_append]
      exact ⟨by simpa using hhere, hrest.aliases⟩

theorem namedFrom_append :
    NamedFrom p before (a ++ b) ↔ NamedFrom p before a ∧ NamedFrom p (a.reverse ++ before) b := by
  induction a generalizing before with
  | nil => simp
  | cons t a ih =>
    simp only [List.cons_append, namedFrom_cons, ih, and_assoc, List.reverse_cons, List.append_assoc,
      List.nil_append]

end

/-! ## Places where no alias is awaited -/

/-- Whether a name behind these tokens is no alias: the last of them is not `AS`, nor a space behind
something that may have an alias. -/
def settled (p : Profile) : List (Token α) → Bool
  | .keyword .as :: _ | .space :: .keyword .as :: _ => false
  | .space :: last :: _ => p.tableAliasAs || !last.endsSource
  | _ => true

/-- Keywords, signs and values: they have no alias and are none. -/
def isNeutral : Token α → Bool
  | .space | .ident _ | .raw _ | .keyword .as | .symbol .star | .symbol .rparen => false
  | _ => true

section

variable {t : Token α}

theorem endsSource_of_isNeutral (h : t.isNeutral = true) : t.endsSource = false := by
  cases t with
  | symbol s => cases s <;> first | rfl | cases h
  | ident | raw => cases h
  | _ => rfl

theorem ne_of_isNeutral (h : t.isNeutral = true) : t ≠ .space ∧ t ≠ .keyword .as ∧ t ≠ .ident "" := by
  refine ⟨?_, ?_, ?_⟩ <;> rintro rfl <;> cases h

end

section

variable {p : Profile} {before : List (Token α)} {t : Token α}

theorem alias?_of_settled (h : settled p before = true) (t : Token α) : alias? p before t = none := by
  unfold alias?
  split
  next => cases h
  next last rest has =>
    have hlast : p.tableAliasAs = true ∨ last.endsSource = false := by
      unfold settled at h
      split at h <;> simp_all
    rw [if_neg]
    rcases hlast with h | h <;> simp [h]
  next => rfl

theorem settled_cons (ht : t ≠ .space) (has : t ≠ .keyword .as) : settled p (t :: before) = true := by
  unfold settled
  split <;> simp_all

theorem settled_space_cons (has : t ≠ .keyword .as) :
    settled p (.space :: t :: before) = (p.tableAliasAs || !t.endsSource) := by
  unfold settled
  split <;> simp_all

/-- What is awaited depends on nothing in front of a token that is neither a space nor `AS`. -/
theorem alias?_congr {a x y : List (Token α)} (ht : t ≠ .space) (has : t ≠ .keyword .as) (u : Token α) :
    alias? p (a ++ t :: x) u = alias? p (a ++ t :: y) u := by
  match a with
  | [] => rw [List.nil_append, alias?_of_ne_space ht, List.nil_append, alias?_of_ne_space ht]
  | first :: a =>
    by_cases hfirst : first = .space
    case neg => rw [List.cons_append, alias?_of_ne_space hfirst, List.cons_append, alias?_of_ne_space hfirst]
    subst hfirst
    match a with
    | [] => exact (alias?_space has).trans (alias?_space has).symm
    | last :: a =>
      by_cases hlast : last = .keyword .as
      case neg => exact (alias?_space hlast).trans (alias?_space hlast).symm
      subst hlast
      by_cases hu : u = .symbol .lparen
      case neg => exact (alias?_as hu).trans (alias?_as hu).symm
      subst hu
      match a with
      | [] => cases t <;> first | rfl | exact absurd rfl ht
      | [outer] => cases outer <;> rfl
      | outer :: _ :: _ => cases outer <;> rfl

theorem settled_congr {a x y : List (Token α)} (ht : t ≠ .space) (has : t ≠ .keyword .as) :
    settled p (a ++ t :: x) = settled p (a ++ t :: y) := by
  match a with
  | [] => exact (settled_cons ht has).trans (settled_cons ht has).symm
  | first :: a =>
    by_cases hfirst : first = .space
    case neg =>
      by_cases hkeyword : first = .keyword .as
      · rw [hkeyword]
        rfl
      · exact (settled_cons hfirst hkeyword).trans (settled_cons hfirst hkeyword).symm
    subst hfirst
    match a with
    | [] => exact (settled_space_cons has).trans (settled_space_cons has).symm
    | last :: a =>
      by_cases hlast : last = .keyword .as
      · rw [hlast]
        rfl
      · exact (settled_space_cons hlast).trans (settled_space_cons hlast).symm

theorem namedFrom_congr {a x y ts : List (Token α)} (ht : t ≠ .space) (has : t ≠ .keyword .as) :
    NamedFrom p (a ++ t :: x) ts ↔ NamedFrom p (a ++ t :: y) ts := by
  induction ts generalizing a with
  | nil => exact iff_of_true namedFrom_nil namedFrom_nil
  | cons u rest ih =>
    rw [namedFrom_cons, namedFrom_cons, alias?_congr ht has]
    exact and_congr_right fun _ => ih (a := u :: a)

/-- Behind a space an alias may be awaited, but it can only be a name. -/
theorem alias?_space_cons (h : settled p before = true) (ht : t.endsSource = false) :
    alias? p (.space :: before) t = none := by
  have ht : t.isName = false := (Bool.or_eq_false_iff.1 ht).1
  unfold alias?
  split
  next heq =>
    cases heq
    cases h
  next => simp [ht]
  next => rfl

end

end Token

/-! ## Names and parameters -/

namespace Token

section

variable {α β : Type} (f : α → β) {p : Profile}

@[simp] theorem isName_map (t : Token α) : (t.map f).isName = t.isName := by
  cases t with
  | symbol s => cases s <;> rfl
  | _ => rfl

@[simp] theorem endsSource_map (t : Token α) : (t.map f).endsSource = t.endsSource := by
  cases t with
  | symbol s => cases s <;> rfl
  | _ => rfl

@[simp] theorem isIdentifier_map (t : Token α) : (t.map f).IsIdentifier p ↔ t.IsIdentifier p := by
  cases t <;> rfl

theorem map_eq_iff {t u : Token α} (hu : u.param? = none) : t.map f = u.map f ↔ t = u := by
  cases u with
  | param => cases hu
  | _ => cases t <;> simp [map]

theorem alias?_map (before : List (Token α)) (t : Token α) :
    alias? p (before.map (map f)) (t.map f) = (alias? p before t).map (map f) := by
  cases before with
  | nil => rfl
  | cons first rest =>
    by_cases hfirst : first = .space
    case neg =>
      rw [alias?_of_ne_space hfirst]
      exact alias?_of_ne_space (mt (map_eq_iff f (u := .space) rfl).1 hfirst)
    subst hfirst
    cases rest with
    | nil => rfl
    | cons last rest =>
      by_cases hlast : last = .keyword .as
      case neg =>
        have hmap := mt (map_eq_iff f (u := .keyword .as) rfl).1 hlast
        rw [alias?_space hlast, List.map_cons, List.map_cons, map, alias?_space hmap, endsSource_map, isName_map]
        split <;> rfl
      subst hlast
      by_cases ht : t = .symbol .lparen
      case neg =>
        rw [alias?_as ht]
        exact alias?_as (mt (map_eq_iff f (u := .symbol .lparen) rfl).1 ht)
      subst ht
      cases rest with
      | nil => rfl
      | cons outer names => cases names <;> cases outer <;> rfl

theorem aliasesFrom_map (before ts : List (Token α)) :
    aliasesFrom p (before.map (map f)) (ts.map (map f)) = (aliasesFrom p before ts).map (map f) := by
  induction ts generalizing before with
  | nil => rfl
  | cons t rest ih =>
    have hrest := ih (t :: before)
    rw [List.map_cons] at hrest
    rw [List.map_cons, aliasesFrom, aliasesFrom, hrest, alias?_map, List.map_append]
    cases alias? p before t <;> rfl

theorem wellNamed_map (ts : List (Token α)) : WellNamed p (ts.map (map f)) ↔ WellNamed p ts := by
  have hsegments : .ident "" ∈ ts.map (map f) ↔ .ident "" ∈ ts := by
    rw [List.mem_map]
    constructor
    · rintro ⟨t, ht, heq⟩
      rwa [← (map_eq_iff f (u := .ident "") rfl).1 heq]
    · exact fun h => ⟨_, h, rfl⟩
  have haliases : (∀ t ∈ aliasesFrom p [] (ts.map (map f)), t.IsIdentifier p) ↔
      ∀ t ∈ aliasesFrom p [] ts, t.IsIdentifier p := by
    have hmap := aliasesFrom_map f (p := p) [] ts
    rw [List.map_nil] at hmap
    rw [hmap, List.forall_mem_map]
    simp only [isIdentifier_map]
  constructor
  · exact fun h => ⟨mt hsegments.2 h.segments, haliases.1 h.aliases⟩
  · exact fun h => ⟨mt hsegments.1 h.segments, haliases.2 h.aliases⟩

/-- Names do not depend on the parameters. -/
theorem wellNamed_renumber (n : Nat) (ts : List (Token α)) : WellNamed p (renumber n ts) ↔ WellNamed p ts := by
  have herased : (renumber n ts).map (map fun _ => ()) = ts.map (map fun _ => ()) := by
    induction ts generalizing n with
    | nil => rfl
    | cons t rest ih =>
      rw [renumber, List.map_cons, List.map_cons, ih]
      cases t <;> rfl
  rw [← wellNamed_map fun _ => (), herased, wellNamed_map]

end

end Token

/-! ## Names of parts -/

variable {p : Profile} {C D : Prop} {α : Type} {a b ts : List (Token α)} {t : Token α}

/-- Wherever no alias is awaited, the names in the tokens are right exactly under the condition `C`, and no
alias is awaited behind them. -/
def Naming (p : Profile) (C : Prop) (ts : List (Token α)) : Prop :=
  ∀ before, Token.settled p before = true →
    (Token.NamedFrom p before ts ↔ C) ∧ Token.settled p (ts.reverse ++ before) = true

namespace Naming

theorem wellNamed_iff (h : Naming p C ts) : Token.WellNamed p ts ↔ C :=
  (h [] rfl).1

theorem congr (h : Naming p C ts) (hCD : C ↔ D) : Naming p D ts :=
  fun before hbefore => ⟨(h before hbefore).1.trans hCD, (h before hbefore).2⟩

theorem nil : Naming p True ([] : List (Token α)) :=
  fun _ hbefore => ⟨iff_true_intro Token.namedFrom_nil, hbefore⟩

theorem append (ha : Naming p C a) (hb : Naming p D b) : Naming p (C ∧ D) (a ++ b) := by
  intro before hbefore
  obtain ⟨hleft, hmiddle⟩ := ha before hbefore
  obtain ⟨hright, hend⟩ := hb _ hmiddle
  rw [Token.namedFrom_append, hleft, hright, List.reverse_append, List.append_assoc]
  exact ⟨Iff.rfl, hend⟩

/-- Tokens without a condition in front. -/
theorem before (ha : Naming p True a) (hb : Naming p C b) : Naming p C (a ++ b) :=
  (ha.append hb).congr (and_iff_right trivial)

/-- Tokens without a condition behind. -/
theorem after (ha : Naming p C a) (hb : Naming p True b) : Naming p C (a ++ b) :=
  (ha.append hb).congr (and_iff_left trivial)

/-! ### Single tokens -/

theorem single (hspace : t ≠ .space) (has : t ≠ .keyword .as) : Naming p (t ≠ .ident "") [t] := by
  intro before hbefore
  refine ⟨?_, Token.settled_cons hspace has⟩
  rw [Token.namedFrom_cons, Token.alias?_of_settled hbefore]
  simp

/-- A token that is no segment of a name. -/
theorem word (hspace : t ≠ .space) (has : t ≠ .keyword .as) (hname : t ≠ .ident "") : Naming p True [t] :=
  (single hspace has).congr (iff_true_intro hname)

theorem symbol (s : Symbol) : Naming p True [(.symbol s : Token α)] :=
  word (by simp) (by simp) (by simp)

theorem raw (text : String) : Naming p True [(.raw text : Token α)] :=
  word (by simp) (by simp) (by simp)

theorem neutral (h : t.isNeutral = true) : Naming p True [t] :=
  word (Token.ne_of_isNeutral h).1 (Token.ne_of_isNeutral h).2.1 (Token.ne_of_isNeutral h).2.2

theorem neutral_space (h : t.isNeutral = true) : Naming p True [t, .space] := by
  intro before hbefore
  have hsettled : Token.settled p (t :: before) = true :=
    Token.settled_cons (Token.ne_of_isNeutral h).1 (Token.ne_of_isNeutral h).2.1
  refine ⟨iff_true_intro ?_, ?_⟩
  · rw [Token.namedFrom_cons, Token.namedFrom_cons, Token.alias?_of_settled hbefore,
      Token.alias?_of_settled hsettled]
    simp [(Token.ne_of_isNeutral h).2.2]
  · exact (Token.settled_space_cons (Token.ne_of_isNeutral h).2.1).trans (by simp [Token.endsSource_of_isNeutral h])

/-! ### Groups of tokens -/

theorem parenthesized (h : Naming p C ts) : Naming p C (Token.parenthesized ts) :=
  (symbol .lparen).before (h.after (symbol .rparen))

theorem function (f : String) (h : Naming p C ts) : Naming p C (.function f :: Token.parenthesized ts) :=
  (neutral rfl).before h.parenthesized

/-- A space in front, where what follows begins with no name. -/
theorem space_cons (ht : t.isNeutral = true) (h : Naming p C (t :: ts)) : Naming p C (.space :: t :: ts) := by
  obtain ⟨hspace, has, hname⟩ := Token.ne_of_isNeutral ht
  intro before hbefore
  obtain ⟨hiff, hend⟩ := h before hbefore
  have hhere := Token.alias?_space_cons hbefore (Token.endsSource_of_isNeutral ht)
  rw [Token.namedFrom_cons, Token.alias?_of_settled hbefore] at hiff
  rw [Token.namedFrom_cons, Token.namedFrom_cons, Token.alias?_of_settled hbefore, hhere, ← hiff]
  rw [List.reverse_cons, List.append_assoc] at hend
  refine ⟨?_, ?_⟩
  · have hrest : Token.NamedFrom p (t :: .space :: before) ts ↔ Token.NamedFrom p (t :: before) ts :=
      Token.namedFrom_congr (a := []) hspace has
    rw [hrest]
    simp
  · rw [List.reverse_cons, List.reverse_cons, List.append_assoc, List.append_assoc]
    exact (Token.settled_congr hspace has).trans hend

theorem space_neutral (h : t.isNeutral = true) : Naming p True [.space, t] :=
  space_cons h (neutral h)

theorem between (h : t.isNeutral = true) : Naming p True [.space, t, .space] :=
  space_cons h (neutral_space h)

theorem spaced {k : Keyword} (hk : k ≠ .as) : Naming p True (Token.spaced k : List (Token α)) :=
  between (by cases k <;> first | rfl | exact absurd rfl hk)

theorem comma : Naming p True [(.symbol .comma : Token α), .space] :=
  neutral_space rfl

theorem sectionOf {k : Keyword} (hk : k ≠ .as) (h : Naming p C ts) : Naming p C (Token.sectionOf k ts) := by
  unfold Token.sectionOf
  split
  next hempty =>
    rw [List.isEmpty_iff.1 hempty] at h
    exact h
  next => exact (spaced hk).before h

section

variable {ι : Type} {xs : List ι} {groups : List (List (Token α))} {P : ι → Prop}

theorem flatten (h : List.Forall₂ (fun x group => Naming p (P x) group) xs groups) :
    Naming p (∀ x ∈ xs, P x) groups.flatten := by
  induction h with
  | nil => exact nil.congr (by simp)
  | cons hx _ ih => exact (hx.append ih).congr List.forall_mem_cons.symm

theorem commaSeparated (h : List.Forall₂ (fun x group => Naming p (P x) group) xs groups) :
    Naming p (∀ x ∈ xs, P x) (Token.commaSeparated groups) := by
  induction h with
  | nil => exact nil.congr (by simp)
  | @cons x group xs groups hx hrest ih =>
    rw [List.forall_mem_cons]
    cases hrest with
    | nil => simpa [Token.commaSeparated, List.intercalate] using hx
    | cons hnext hrest =>
      simpa [Token.commaSeparated, List.intercalate] using hx.append (comma.before ih)

end

/-! ### Aliases -/

section

variable {u : Token α}

/-- An alias behind `AS`. -/
theorem as (hspace : t ≠ .space) (has : t ≠ .keyword .as) (hparen : t ≠ .symbol .lparen) :
    Naming p (t ≠ .ident "" ∧ t.IsIdentifier p) (Token.spaced .as ++ [t]) := by
  intro before hbefore
  refine ⟨?_, Token.settled_cons hspace has⟩
  have halias : Token.alias? p (.space :: .keyword .as :: .space :: before) t = some t := by
    unfold Token.alias?
    split <;> simp_all
  have hhere : Token.alias? p (.space :: before) (.keyword .as) = none := Token.alias?_space_cons hbefore rfl
  simp only [Token.spaced, List.cons_append, List.nil_append, Token.namedFrom_cons,
    Token.alias?_of_settled hbefore, hhere, halias]
  simp [Token.alias?]

/-- An alias behind a space, where tables take theirs without `AS`. -/
theorem apart (hp : p.tableAliasAs = false) (ha : Naming p C (a ++ [u])) (hu : u.endsSource = true)
    (ht : t.isName = true) :
    Naming p (C ∧ t ≠ .ident "" ∧ t.IsIdentifier p) (a ++ [u] ++ [.space, t]) := by
  intro before hbefore
  obtain ⟨hleft, hsettled⟩ := ha before hbefore
  rw [List.reverse_append, List.reverse_singleton, List.append_assoc, List.singleton_append] at hsettled
  have halias : Token.alias? p (.space :: u :: (a.reverse ++ before)) t = some t := by
    unfold Token.alias?
    split
    next heq =>
      cases heq
      cases hu
    next heq =>
      cases heq
      simp [hp, hu, ht]
    next hother => exact absurd rfl (hother _ _)
  have hend : Token.settled p (t :: .space :: u :: (a.reverse ++ before)) = true :=
    Token.settled_cons (by rintro rfl; cases ht) (by rintro rfl; cases ht)
  refine ⟨?_, by simpa using hend⟩
  rw [Token.namedFrom_append, hleft, List.reverse_append, List.reverse_singleton, List.append_assoc,
    List.singleton_append, Token.namedFrom_cons, Token.namedFrom_cons, Token.alias?_of_settled hsettled, halias]
  simp

/-- A common table expression: its name, and a query behind `AS`. -/
theorem cte (hspace : t ≠ .space) (has : t ≠ .keyword .as) (h : Naming p C ts) :
    Naming p ((t ≠ .ident "" ∧ t.IsIdentifier p) ∧ C) (t :: Token.spaced .as ++ Token.parenthesized ts) := by
  have hopening : Naming p (t ≠ .ident "" ∧ t.IsIdentifier p) (t :: Token.spaced .as ++ [.symbol .lparen]) := by
    intro before hbefore
    have hsettled : Token.settled p (t :: before) = true := Token.settled_cons hspace has
    have hhere := Token.alias?_space_cons hsettled (t := .keyword .as) rfl
    refine ⟨?_, Token.settled_cons (by simp) (by simp)⟩
    simp only [Token.spaced, List.cons_append, List.nil_append, Token.namedFrom_cons,
      Token.alias?_of_settled hbefore, Token.alias?_of_settled hsettled, hhere]
    simp [Token.alias?]
  have hall := hopening.append (h.after (symbol .rparen))
  rwa [List.append_assoc] at hall

end

end Naming

end QueryCompiler
