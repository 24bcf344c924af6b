-- SUMMARY: The section keywords of each parenthesis level of a text, and the levels of tokens put together from parts.
import QueryCompiler.Proofs.Binding
import QueryCompiler.Proofs.Phrase

/-!
# Levels

Parentheses divide a text into levels. What is checked of a statement is often a
matter of one level at a time: which sections stand there, in which order, and
not in those that are nested in it. A level is the list of its section keywords.
`Layout` says of a part of a text which levels begin and end in it and what it
adds to the level that it stands at; it does not depend on where the part stands.
-/

namespace QueryCompiler

/-- The keywords that the sections of a statement begin with, and the operators between statements. -/
def Keyword.isSection : Keyword → Bool
  | .with_ | .select | .distinct | .top | .over | .from | .join | .where_ | .groupBy | .having | .orderBy
  | .limit | .offset | .union | .intersect | .except => true
  | _ => false

namespace Token

variable {α : Type}

/-! ## Reading levels -/

/-- The levels of a text in the order in which they end. The reader has read `here` at its own level and
stands inside the levels `around`, the innermost first. -/
def levelsFrom (here : List Keyword) (around : List (List Keyword)) : List (Token α) → List (List Keyword)
  | [] => here :: around
  | .keyword k :: rest => levelsFrom (if k.isSection then here ++ [k] else here) around rest
  | .symbol .lparen :: rest => levelsFrom [] (here :: around) rest
  | .symbol .rparen :: rest =>
    match around with
    | [] => levelsFrom here [] rest
    | outer :: around => here :: levelsFrom outer around rest
  | _ :: rest => levelsFrom here around rest

/-- The levels of a text, the outermost last. -/
def levels (ts : List (Token α)) : List (List Keyword) :=
  levelsFrom [] [] ts

/-- The levels in parentheses. -/
def innerLevels (ts : List (Token α)) : List (List Keyword) :=
  (levels ts).dropLast

/-- The level outside parentheses. -/
def ownLevel (ts : List (Token α)) : List Keyword :=
  (levels ts).getLastD []

/-- Levels do not depend on the parameters. -/
theorem levels_renumber (n : Nat) (ts : List (Token α)) : levels (renumber n ts) = levels ts := by
  have hfrom : ∀ here around n, levelsFrom here around (renumber n ts) = levelsFrom here around ts := by
    induction ts with
    | nil => exact fun _ _ _ => rfl
    | cons t rest ih =>
      intro here around n
      cases t with
      | symbol s =>
        cases s with
        | rparen =>
          cases around with
          | nil => exact ih _ _ _
          | cons outer around => exact congrArg (here :: ·) (ih _ _ _)
        | _ => exact ih _ _ _
      | _ => exact ih _ _ _
  exact hfrom [] [] n

theorem innerLevels_renumber (n : Nat) (ts : List (Token α)) :
    innerLevels (renumber n ts) = innerLevels ts := by
  rw [innerLevels, innerLevels, levels_renumber]

/-- A token that leaves the reader at its level, and the level as it is. -/
def isInert : Token α → Bool
  | .keyword k => !k.isSection
  | .symbol .lparen | .symbol .rparen => false
  | _ => true

theorem isInert_of_isPlain {t : Token α} (h : t.isPlain = true) : t.isInert = true := by
  cases t with
  | keyword k => cases h
  | symbol s => cases s <;> first | rfl | cases h
  | _ => rfl

end Token

/-! ## Layouts -/

variable {α : Type} {own own' : List Keyword} {closed closed' : List (List Keyword)}
  {a b ts : List (Token α)}

/-- The tokens add `own` to the level that they stand at, and the levels inside them are `closed`. -/
def Layout (own : List Keyword) (closed : List (List Keyword)) (ts : List (Token α)) : Prop :=
  ∀ here around rest,
    Token.levelsFrom here around (ts ++ rest) = closed ++ Token.levelsFrom (here ++ own) around rest

namespace Layout

theorem levels_eq (h : Layout own closed ts) : Token.levels ts = closed ++ [own] := by
  have hread := h [] [] []
  rwa [List.append_nil] at hread

theorem innerLevels_eq (h : Layout own closed ts) : Token.innerLevels ts = closed := by
  rw [Token.innerLevels, h.levels_eq, List.dropLast_concat]

theorem ownLevel_eq (h : Layout own closed ts) : Token.ownLevel ts = own := by
  rw [Token.ownLevel, h.levels_eq, List.getLastD_concat]

theorem nil : Layout [] [] ([] : List (Token α)) := by
  intro here around rest
  rw [List.append_nil]
  rfl

theorem inert {t : Token α} (h : t.isInert = true) : Layout [] [] [t] := by
  intro here around rest
  rw [List.append_nil]
  cases t with
  | keyword k =>
    have hk : k.isSection = false := by simpa [Token.isInert] using h
    rw [List.singleton_append, Token.levelsFrom, hk]
    rfl
  | symbol s => cases s <;> first | rfl | cases h
  | _ => rfl

theorem keyword {k : Keyword} (h : k.isSection = true) : Layout [k] [] [(.keyword k : Token α)] := by
  intro here around rest
  rw [List.singleton_append, Token.levelsFrom, if_pos h]
  rfl

theorem append (ha : Layout own closed a) (hb : Layout own' closed' b) :
    Layout (own ++ own') (closed ++ closed') (a ++ b) := by
  intro here around rest
  rw [List.append_assoc, ha, hb, List.append_assoc, List.append_assoc]

theorem inertList (h : ∀ t ∈ ts, t.isInert = true) : Layout [] [] ts := by
  induction ts with
  | nil => exact nil
  | cons t rest ih =>
    rw [List.forall_mem_cons] at h
    exact (inert h.1).append (ih h.2)

theorem parenthesized (h : Layout own closed ts) :
    Layout [] (closed ++ [own]) (Token.parenthesized ts) := by
  intro here around rest
  have hinner := h [] (here :: around) (.symbol .rparen :: rest)
  rw [List.append_nil, List.append_assoc, Token.parenthesized, List.append_assoc, List.cons_append,
    Token.levelsFrom]
  exact hinner

end Layout

/-- A phrase is laid out: its parentheses match. -/
theorem Phrase.exists_layout {p : Profile} {F : Fragment → Prop} {K : Keyword → Bool}
    {ts : List (Token Value)} (h : Phrase p F K ts) : ∃ own closed, Layout own closed ts := by
  have hinert {t : Token Value} (ht : t.isPlain = true) :
      Layout [] [] [t] := .inert (Token.isInert_of_isPlain ht)
  induction h with
  | word h => exact ⟨[], [], hinert h.isPlain⟩
  | @keyword K k h =>
    cases hk : k.isSection with
    | true => exact ⟨[k], [], .keyword hk⟩
    | false => exact ⟨[], [], .inert (by simp [Token.isInert, hk])⟩
  | fragment _ h =>
    exact ⟨[], [], .inertList fun t ht => Token.isInert_of_isPlain (Fragment.isPlain_of_mem_tokens h t ht)⟩
  | spaced _ _ iha ihb | dotted _ _ iha ihb =>
    obtain ⟨own, closed, ha⟩ := iha
    obtain ⟨own', closed', hb⟩ := ihb
    exact ⟨_, _, ha.append ((hinert rfl).append hb)⟩
  | listed _ _ iha ihb =>
    obtain ⟨own, closed, ha⟩ := iha
    obtain ⟨own', closed', hb⟩ := ihb
    exact ⟨_, _, ha.append ((hinert rfl).append ((hinert rfl).append hb))⟩
  | enclosed _ ih =>
    obtain ⟨own, closed, ha⟩ := ih
    exact ⟨_, _, ha.parenthesized⟩
  | call _ => exact ⟨_, _, (hinert rfl).append (Layout.nil.parenthesized)⟩
  | applied _ _ ih =>
    obtain ⟨own, closed, ha⟩ := ih
    exact ⟨_, _, (hinert rfl).append ha.parenthesized⟩

end QueryCompiler
