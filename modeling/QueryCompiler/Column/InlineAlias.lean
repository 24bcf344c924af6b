-- SUMMARY: Splitting `name as alias` into its halves.
import QueryCompiler.Text.Blank
import QueryCompiler.Text.Pattern

/-!
# Inline aliases

A name and its alias have the word `as` in any case between them, with blanks
around it. They are the groups of a pattern, and which of several such words
splits a text is decided by how this pattern is matched. The letter `s` has
three forms when case is ignored, since the long `ſ` is one of them.
-/

namespace QueryCompiler.InlineAlias

def isLetterA (c : Char) : Bool :=
  c = 'a' || c = 'A'

def isLetterS (c : Char) : Bool :=
  c = 's' || c = 'S' || c = 'ſ'

/-- `^(.+?)\s+as\s+(.+)$`, where case is ignored and a dot is any character. -/
def pattern : Text.Pattern :=
  [.start, .group (.many 1 false Text.anyChar), .many 1 true Text.isBlank, .one isLetterA, .one isLetterS,
    .many 1 true Text.isBlank, .group (.many 1 true Text.anyChar), .finish]

/-- The name and the alias of a text such as `name as alias`. -/
def split (text : List Char) : List Char × Option (List Char) :=
  let text := Text.trim text
  match pattern.captures? text with
  | some [name, aliasName] => (Text.trim name, some (Text.trim aliasName))
  | _ => (text, none)

/-- `split` on strings. -/
def splitText (text : String) : String × Option String :=
  let (name, aliasName) := split text.toList
  (String.ofList name, aliasName.map String.ofList)

end QueryCompiler.InlineAlias
