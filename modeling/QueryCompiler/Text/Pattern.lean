-- SUMMARY: Patterns of characters, and the match that is found in a text: the leftmost one, and there the one that is preferred.

/-!
# Patterns

A pattern is a sequence of parts that take characters off a text. A part may match
in several ways, and they are in an order: a greedy repetition prefers to take as many
characters as it can, and a lazy one as few. The ways of a sequence are in the order of
the first part, then of the second one, and so on, as if each part tried its ways in
turn and came back to the next one when what follows cannot be matched. Of all the
matches in a text the one that starts leftmost is found, and of those that start there
the first one.
-/

namespace QueryCompiler.Text

/-- A part of a pattern. -/
inductive Part where
  /-- The start of the text, `^`. -/
  | start
  /-- The end of the text, `$`. -/
  | finish
  /-- A character of a class. -/
  | one (accepts : Char → Bool)
  /-- At least so many characters of a class: greedy as in `c+` and `c*`, or lazy as in `c+?` and `c*?`. -/
  | many (least : Nat) (isGreedy : Bool) (accepts : Char → Bool)
  /-- A part whose characters are kept, `(…)`. -/
  | group (inner : Part)

/-- Any character, line breaks among them. -/
def anyChar (_ : Char) : Bool :=
  true

/-- The ways to take characters of a class off a text, at least so many: what is taken, and what follows. -/
def takings (isGreedy : Bool) (accepts : Char → Bool) : Nat → List Char → List (List Char × List Char)
  | least, [] => if least = 0 then [([], [])] else []
  | least, c :: rest =>
    let stop := if least = 0 then [([], c :: rest)] else []
    let more :=
      if accepts c then
        (takings isGreedy accepts (least - 1) rest).map fun (taken, behind) => (c :: taken, behind)
      else []
    if isGreedy then more ++ stop else stop ++ more

namespace Part

/-- The ways to match a part in front of a text, the preferred one first. -/
def ways (atStart : Bool) (text : List Char) : Part → List (List Char × List Char)
  | .start => if atStart then [([], text)] else []
  | .finish => if text.isEmpty then [([], [])] else []
  | .one accepts =>
    match text with
    | c :: rest => if accepts c then [([c], rest)] else []
    | [] => []
  | .many least isGreedy accepts => takings isGreedy accepts least text
  | .group inner => inner.ways atStart text

/-- The groups of a part that has taken these characters. -/
def groups (taken : List Char) : Part → List (List Char)
  | .group inner => taken :: inner.groups taken
  | _ => []

end Part

abbrev Pattern := List Part

namespace Pattern

/-- The groups of the matches in front of a text, in the order in which these are preferred. -/
def matchesAt (atStart : Bool) (text : List Char) : Pattern → List (List (List Char))
  | [] => [[]]
  | part :: next =>
    (part.ways atStart text).flatMap fun (taken, rest) =>
      (matchesAt (atStart && taken.isEmpty) rest next).map (part.groups taken ++ ·)

/-- The groups of the leftmost match from here on. -/
def find? (p : Pattern) (atStart : Bool) : List Char → Option (List (List Char))
  | [] => (p.matchesAt atStart []).head?
  | c :: rest => (p.matchesAt atStart (c :: rest)).head?.or (find? p false rest)

/-- The groups of the match that is found in a text. -/
def captures? (p : Pattern) (text : List Char) : Option (List (List Char)) :=
  p.find? true text

end Pattern

end QueryCompiler.Text
