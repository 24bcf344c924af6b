-- SUMMARY: Quoted identifiers: writing them, recognising them, reading past them, and splitting compound names at the dots outside them.

/-!
# Quoted identifiers

A dialect quotes an identifier between an opening and a closing character, and
writes the closing character twice inside. `QuotePair.step` is the one place
that says where a left-to-right reader of such text stands; a compound name is
split where it meets a dot outside quotes.
-/

namespace QueryCompiler

/-- The characters around a quoted identifier. -/
structure QuotePair where
  opening : Char
  closing : Char
deriving DecidableEq, Repr

namespace QuotePair

/-! ## Writing -/

/-- A name with every closing quote written twice. -/
def escape (q : QuotePair) (name : List Char) : List Char :=
  name.flatMap fun c => if c = q.closing then [c, c] else [c]

/-- A name in quotes. -/
def quote (q : QuotePair) (name : List Char) : List Char :=
  q.opening :: q.escape name ++ [q.closing]

@[simp] theorem escape_nil (q : QuotePair) : q.escape [] = [] := rfl

theorem escape_cons (q : QuotePair) (c : Char) (name : List Char) :
    q.escape (c :: name) = (if c = q.closing then [c, c] else [c]) ++ q.escape name := rfl

theorem escape_append (q : QuotePair) (a b : List Char) :
    q.escape (a ++ b) = q.escape a ++ q.escape b :=
  List.flatMap_append

theorem escape_eq_self {q : QuotePair} {name : List Char} (h : q.closing ∉ name) : q.escape name = name := by
  induction name with
  | nil => rfl
  | cons c name ih =>
    rw [List.mem_cons, not_or] at h
    rw [escape_cons, if_neg (Ne.symm h.1), ih h.2]
    rfl

/-! ## Recognising -/

/-- Whether every closing quote of a text is one of a pair. -/
def allDoubled (q : QuotePair) : List Char → Bool
  | [] => true
  | [c] => c != q.closing
  | c :: d :: rest =>
    if c = q.closing then d == q.closing && q.allDoubled rest else q.allDoubled (d :: rest)

/-- What stands between an opening quote at the start and a closing quote at the end. -/
def inner? (q : QuotePair) : List Char → Option (List Char)
  | [] => none
  | c :: rest => if c = q.opening ∧ rest.getLast? = some q.closing then some rest.dropLast else none

/-- Whether a text is one complete quoted identifier. -/
def isQuoted (q : QuotePair) (text : List Char) : Bool :=
  match q.inner? text with
  | some inner => q.allDoubled inner
  | none => false

/-! ## Reading -/

/-- Where a left-to-right reader of text with quoted identifiers stands. A closing quote may turn out
to be the first of a pair, so the reader decides one character later. -/
inductive Position where
  | outside
  | inside
  | afterClosing
deriving DecidableEq, Repr

/-- One character further. -/
def step (q : QuotePair) (p : Position) (c : Char) : Position :=
  match p with
  | .inside => if c = q.closing then .afterClosing else .inside
  | .afterClosing =>
    if c = q.closing then .inside else if c = q.opening then .inside else .outside
  | .outside => if c = q.opening then .inside else .outside

/-- Puts a character in front of the first part. -/
def consFirst (c : Char) : List (List Char) → List (List Char)
  | [] => [[c]]
  | part :: parts => (c :: part) :: parts

/-- Splits a text at the dots outside quotes, for a reader who stands at `p`. -/
def splitFrom (q : QuotePair) (p : Position) : List Char → List (List Char)
  | [] => [[]]
  | c :: rest =>
    let next := q.step p c
    if c = '.' ∧ next = .outside then [] :: q.splitFrom next rest
    else consFirst c (q.splitFrom next rest)

/-- The segments of a compound name. -/
def split (q : QuotePair) (name : List Char) : List (List Char) :=
  q.splitFrom .outside name

@[simp] theorem split_nil (q : QuotePair) : q.split [] = [[]] := rfl

theorem splitFrom_ne_nil (q : QuotePair) (p : Position) (name : List Char) :
    q.splitFrom p name ≠ [] := by
  cases name with
  | nil => simp [splitFrom]
  | cons c rest =>
    simp only [splitFrom]
    split
    · simp
    · cases q.splitFrom (q.step p c) rest <;> simp [consFirst]

end QuotePair

end QueryCompiler
