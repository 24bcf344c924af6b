-- SUMMARY: Atoms: what the words of an atomic predicate say, and what it says in a condition.
import QueryCompiler.Proofs.Reading

/-!
# Atoms

An atom relates a subject to an object. In a text it is cut at the sign or the keyword
of its relation, the one that stands outside parentheses. In a condition the subject
is a reference to a column, the relation is the one that the predicate is built with,
and the object are the words of an operand. Truth values are given to atoms. So two
predicates may have different values as soon as their texts say different things, if
only by the sign of a comparison.
-/

namespace QueryCompiler

/-! ## Atoms of a text -/

/-- What an atom says of its subject. -/
inductive Relation where
  | compare (op : Comparison)
  | isNull
  | in_
  | like
  | ilike
  | between
  | exists
deriving DecidableEq, Repr

/-- The words of an atomic predicate on both sides of its relation. -/
structure Atom where
  subject : List (Token Value)
  relation : Relation
  object : List (Token Value)

/-- The relation that a token stands for. -/
def Token.relation? : Token Value → Option Relation
  | .symbol .eq => some (.compare .eq)
  | .symbol .ne => some (.compare .ne)
  | .symbol .lt => some (.compare .lt)
  | .symbol .le => some (.compare .le)
  | .symbol .gt => some (.compare .gt)
  | .symbol .ge => some (.compare .ge)
  | .keyword .isNull => some .isNull
  | .keyword .in_ => some .in_
  | .keyword .like => some .like
  | .keyword .ilike => some .ilike
  | .keyword .between => some .between
  | .keyword .exists => some .exists
  | _ => none

/-- Whether a relation stands here outside parentheses. -/
def Level.relates (l : Level) (t : Token Value) : Bool :=
  l.depth = 0 && t.relation?.isSome

namespace Atom

/-- The atom that words say, if they have one relation outside parentheses. -/
def read (words : List (Token Value)) : Option Atom :=
  match cut Level.relates {} words with
  | [subject, object] =>
    (words[subject.length]?.bind Token.relation?).map fun relation => ⟨subject, relation, object⟩
  | _ => none

/-- The truth of the atom that words say. -/
def value? (w : Atom → Truth) (words : List (Token Value)) : Option Truth :=
  (read words).map w

variable {l : Level} {subject object : List (Token Value)} {t : Token Value} {relation : Relation}

theorem read_append (hsubject : Passes Level.relates {} {} subject) (ht : t.relation? = some relation)
    (hobject : Passes Level.relates (Level.step {} t) l object) :
    read (subject ++ t :: object) = some ⟨subject, relation, object⟩ := by
  have hcut : cut Level.relates {} (subject ++ t :: object) = [subject, object] := by
    rw [hsubject.cut_append_cons (by simp [Level.relates, ht]), hobject.cut_eq]
  simp [read, hcut, ht]

end Atom

/-! ## Words without a relation -/

section

variable {p : Profile} {F : Fragment → Prop} {K : Keyword → Bool} {l : Level} {ts : List (Token Value)}

/-- Words that stand for no relation. -/
theorem passes_relates (h : ∀ t ∈ ts, t.isPlain = true ∧ t.relation? = none) :
    Passes Level.relates l l ts := by
  induction ts with
  | nil => exact .nil
  | cons t rest ih =>
    rw [List.forall_mem_cons] at h
    refine .cons (by simp [Level.relates, h.1.2]) ?_
    rw [Level.step_plain h.1.1]
    exact ih h.2

/-- In parentheses no relation belongs to the text around. -/
theorem calm_relates : Calm Level.relates ⟨1, l.between⟩ K where
  deep := by
    intro l' t hl
    simp [Level.relates, Nat.ne_of_gt (Nat.lt_of_succ_lt hl)]
  plain := by simp [Level.relates]
  opening := by simp [Level.relates]
  keyword := fun k _ => ⟨by simp [Level.relates], Level.step_keyword Nat.one_pos k⟩

theorem Phrase.passes_relates (h : Phrase p F K ts) :
    Passes Level.relates {} {} (Token.parenthesized (Token.words ts)) :=
  .parenthesized rfl (h.passes calm_relates) rfl

theorem eq_or_mem_of_mem_intersperse {α : Type} {sep t : α} {ts : List α} (h : t ∈ ts.intersperse sep) :
    t = sep ∨ t ∈ ts := by
  induction ts with
  | nil => exact .inr h
  | cons first rest ih =>
    cases rest with
    | nil => exact .inr h
    | cons next rest =>
      rw [List.intersperse_cons_cons, List.mem_cons, List.mem_cons] at h
      rcases h with rfl | rfl | h
      · exact .inr (List.mem_cons_self ..)
      · exact .inl rfl
      · exact (ih h).imp_right (List.mem_cons_of_mem _)

theorem unrelated_segmentToken (cs : List Char) :
    (p.segmentToken cs : Token Value).isPlain = true ∧ (p.segmentToken cs : Token Value).relation? = none := by
  unfold Profile.segmentToken
  split
  · exact ⟨rfl, rfl⟩
  · split <;> exact ⟨rfl, rfl⟩

/-- The words of a reference. -/
def Profile.referenceWords (p : Profile) (name : String) : List (Token Value) :=
  Token.words (p.reference name)

theorem unrelated_referenceWords (name : String) :
    ∀ t ∈ p.referenceWords name, t.isPlain = true ∧ t.relation? = none := by
  intro t ht
  rcases eq_or_mem_of_mem_intersperse (List.mem_of_mem_filter ht) with rfl | ht
  · exact ⟨rfl, rfl⟩
  · obtain ⟨cs, -, rfl⟩ := List.mem_map.1 ht
    exact unrelated_segmentToken _

theorem words_checkedReference {place : NamePlace} {name : String} (h : p.checkedReference place name = .ok ts) :
    Token.words ts = p.referenceWords name := by
  obtain ⟨-, -, h⟩ := bind_eq_ok h
  cases h
  rfl

end

/-! ## Atoms of conditions -/

section

variable {σ τ : Type} (p : Profile) (query : σ → Option (List (Token Value)))

/-- The words of the right-hand side of a comparison, given those of queries. -/
def Operand.words? : Operand σ → Option (List (Token Value))
  | .value v => some [.param v]
  | .column name => some (p.referenceWords name)
  | .query q => (query q).map Token.parenthesized
  | .raw _ => none

/-- What an atomic predicate says. A match without regard to case is one in lower case where the dialect has no
operator for it. -/
def Predicate.atom? : Predicate σ (Condition σ) → Option Atom
  | .compare column op operand =>
    (operand.words? p query).map fun object => ⟨p.referenceWords column, .compare op, object⟩
  | .inValues column values =>
    some ⟨p.referenceWords column, .in_,
      Token.parenthesized ((values.map Token.param).intersperse (.symbol .comma))⟩
  | .inQuery column q =>
    (query q).map fun words => ⟨p.referenceWords column, .in_, Token.parenthesized words⟩
  | .between column low high =>
    some ⟨p.referenceWords column, .between, [.param low, .keyword .and, .param high]⟩
  | .isNull column => some ⟨p.referenceWords column, .isNull, []⟩
  | .like column pattern true => some ⟨p.referenceWords column, .like, [.param (.string pattern)]⟩
  | .like column pattern false =>
    some (match p.caselessMatch with
      | .ilike => ⟨p.referenceWords column, .ilike, [.param (.string pattern)]⟩
      | .lowerCase => ⟨.function "LOWER" :: Token.parenthesized (p.referenceWords column), .like,
          [.param (.string (Text.lower pattern))]⟩)
  | .exists q => (query q).map fun words => ⟨[], .exists, Token.parenthesized words⟩
  | .group _ | .raw _ => none

/-- The truth of an atomic predicate, given that of atoms. -/
def Predicate.value (w : Atom → Truth) (predicate : Predicate σ (Condition σ)) : Truth :=
  ((Predicate.atom? p query predicate).map w).getD .unknown

variable {p query}

theorem Predicate.value_eq {w : Atom → Truth} {predicate : Predicate σ (Condition σ)} {atom : Atom}
    (h : Predicate.atom? p query predicate = some atom) : Predicate.value p query w predicate = w atom := by
  rw [Predicate.value, h]
  rfl

theorem Predicate.atom?_map (f : τ → σ) (predicate : Predicate τ (Condition τ)) :
    Predicate.atom? p query (Predicate.map f predicate) = Predicate.atom? p (query ∘ f) predicate := by
  cases predicate with
  | compare column op operand => cases operand <;> rfl
  | like column pattern caseSensitive => cases caseSensitive <;> rfl
  | _ => rfl

end

end QueryCompiler
