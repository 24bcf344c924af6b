-- SUMMARY: A reader of text with quoted identifiers, which reads every quoted name and every other word back.
import QueryCompiler.Identifier.Quote

/-!
# Lexing

A database reads a statement from left to right. An opening quote starts a
quoted identifier, which goes on to the first closing quote that is not doubled.
`QuotePair.read` is such a reader. It knows nothing of tokens: it sees
identifiers with their names, and the characters outside them.
-/

namespace QueryCompiler

/-- What a reader of text sees. -/
inductive Lexeme where
  /-- A character outside quotes. -/
  | char (c : Char)
  /-- A complete quoted identifier, by its name. -/
  | name (cs : List Char)
deriving DecidableEq, Repr

namespace QuotePair

/-! ## The reader -/

/-- Where a reader stands, and what it has read of a name. -/
inductive Reading where
  | outside
  | inside (name : List Char)
  /-- Behind a closing quote, which may be the first of a pair. -/
  | closed (name : List Char)
deriving DecidableEq, Repr

/-- What is seen of a text from where the reader stands. Nothing when the text ends inside a quoted
identifier. -/
def read (q : QuotePair) : Reading → List Char → Option (List Lexeme)
  | .outside, [] => some []
  | .outside, c :: rest =>
    if c = q.opening then q.read (.inside []) rest
    else (q.read .outside rest).map (.char c :: ·)
  | .inside _, [] => none
  | .inside name, c :: rest =>
    if c = q.closing then q.read (.closed name) rest else q.read (.inside (name ++ [c])) rest
  | .closed name, [] => some [.name name]
  | .closed name, c :: rest =>
    if c = q.closing then q.read (.inside (name ++ [c])) rest
    else
      (if c = q.opening then q.read (.inside []) rest
        else (q.read .outside rest).map (.char c :: ·)).map (.name name :: ·)

/-- What is seen of a whole text. -/
def lexemes? (q : QuotePair) (text : List Char) : Option (List Lexeme) :=
  q.read .outside text

variable {q : QuotePair} {name rest : List Char}

/-! ## Reading words -/

/-- A text that does not go on with a closing quote, so that a quoted identifier in front of it ends
where it should. -/
def AtBoundary (q : QuotePair) (rest : List Char) : Prop :=
  rest.head? ≠ some q.closing

theorem atBoundary_nil : q.AtBoundary [] := by
  simp [AtBoundary]

theorem atBoundary_cons {c : Char} (h : c ≠ q.closing) : q.AtBoundary (c :: rest) := by
  simpa [AtBoundary] using h

/-- Text without opening quotes is seen character by character. -/
theorem read_append_of_notMem {word : List Char} (h : q.opening ∉ word) :
    q.read .outside (word ++ rest) = (q.read .outside rest).map (word.map .char ++ ·) := by
  induction word with
  | nil => simp
  | cons c word ih =>
    rw [List.mem_cons, not_or] at h
    rw [List.cons_append, read, if_neg (Ne.symm h.1), ih h.2, Option.map_map]
    rfl

/-! ## Reading quoted names -/

theorem read_closed (h : q.AtBoundary rest) :
    q.read (.closed name) rest = (q.read .outside rest).map (.name name :: ·) := by
  cases rest with
  | nil => rfl
  | cons c rest =>
    have hc : c ≠ q.closing := by simpa [AtBoundary] using h
    simp only [read, if_neg hc]

theorem read_inside_escape (seen : List Char) :
    q.read (.inside seen) (q.escape name ++ q.closing :: rest) = q.read (.closed (seen ++ name)) rest := by
  induction name generalizing seen with
  | nil => simp [read]
  | cons c name ih =>
    rw [escape_cons]
    by_cases hc : c = q.closing
    · simp [hc, read, ih]
    · simp [hc, read, ih]

/-- A quoted name is seen as one identifier, whatever characters the name has. -/
theorem read_quote_append (h : q.AtBoundary rest) :
    q.read .outside (q.quote name ++ rest) = (q.read .outside rest).map (.name name :: ·) := by
  have hquote : q.quote name ++ rest = q.opening :: (q.escape name ++ q.closing :: rest) := by
    simp [quote]
  rw [hquote, read, if_pos rfl, read_inside_escape, List.nil_append, read_closed h]

/-! ## Quoted text is a quoted name -/

theorem exists_escape_of_allDoubled {text : List Char} (h : q.allDoubled text = true) :
    ∃ name, text = q.escape name := by
  fun_induction allDoubled q text with
  | case1 => exact ⟨[], rfl⟩
  | case2 c =>
    have hc : c ≠ q.closing := by simpa using h
    exact ⟨[c], by simp [escape_cons, hc]⟩
  | case3 d rest ih =>
    rw [Bool.and_eq_true, beq_iff_eq] at h
    obtain ⟨name, rfl⟩ := ih h.2
    exact ⟨q.closing :: name, by simp [escape_cons, h.1]⟩
  | case4 c d rest hc ih =>
    obtain ⟨name, hname⟩ := ih h
    exact ⟨c :: name, by rw [escape_cons, if_neg hc, ← hname]; rfl⟩

theorem exists_quote_of_isQuoted {text : List Char} (h : q.isQuoted text = true) :
    ∃ name, text = q.quote name := by
  unfold isQuoted at h
  split at h
  next inner hinner =>
    obtain ⟨name, rfl⟩ := exists_escape_of_allDoubled h
    refine ⟨name, ?_⟩
    unfold inner? at hinner
    split at hinner
    · cases hinner
    next c rest =>
      split at hinner
      next hquotes =>
        obtain ⟨rfl, hlast⟩ := hquotes
        obtain ⟨front, rfl⟩ := List.getLast?_eq_some_iff.1 hlast
        rw [List.dropLast_concat, Option.some.injEq] at hinner
        rw [quote, ← hinner, List.cons_append]
      · cases hinner
  · cases h

end QuotePair

end QueryCompiler
