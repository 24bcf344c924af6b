-- SUMMARY: Emitting raw fragments, with parameters at their markers.
import QueryCompiler.Query.Basic
import QueryCompiler.Statement.Emitter

/-!
# Raw fragments

A fragment is read character by character into marks: a question mark is a
marker for a binding unless a backslash stands before it, and a backslash before
a question mark only says that it is none. Between the markers the text is kept
as it is.
-/

namespace QueryCompiler.Fragment

/-- A character of the text, or a place for a binding. -/
inductive Mark where
  | char (c : Char)
  | marker
deriving DecidableEq, Repr

/-- The marks of a text. -/
def marks : List Char → List Mark
  | [] => []
  | '?' :: rest => .marker :: marks rest
  | '\\' :: '?' :: rest => .char '?' :: marks rest
  | c :: rest => .char c :: marks rest

/-- A piece of a fragment: text without markers, or a marker. -/
inductive Part where
  | text (cs : List Char)
  | marker
deriving DecidableEq, Repr

/-- Puts a mark in front of pieces; a character joins the text that it stands before. -/
def Mark.cons (m : Mark) (parts : List Part) : List Part :=
  match m, parts with
  | .marker, parts => .marker :: parts
  | .char c, .text cs :: rest => .text (c :: cs) :: rest
  | .char c, parts => .text [c] :: parts

/-- The pieces of a text, at least one: a text without marks is one empty piece. -/
def parts (text : List Char) : List Part :=
  match (marks text).foldr Mark.cons [] with
  | [] => [.text []]
  | list => list

/-- The number of markers. -/
def markerCount (f : Fragment) : Nat :=
  (marks f.text.toList).count .marker

/-- Emits pieces, with a parameter for the next value at each marker. The values run out exactly when
there are fewer of them. -/
def emitParts : List Part → List Value → Emitter (List (Token Nat))
  | [], _ => return []
  | .text cs :: rest, values => do
    let more ← emitParts rest values
    return .raw (String.ofList cs) :: more
  | .marker :: rest, v :: values => do
    let param ← Emitter.param v
    let more ← emitParts rest values
    return param :: more
  | .marker :: rest, [] => emitParts rest []

/-- Emits a fragment, which has to have one binding for each marker. -/
def emit (f : Fragment) : Emitter (List (Token Nat)) :=
  if f.markerCount = f.bindings.length then emitParts (parts f.text.toList) f.bindings
  else throw (.markerMismatch f.text f.markerCount f.bindings.length)

end QueryCompiler.Fragment
