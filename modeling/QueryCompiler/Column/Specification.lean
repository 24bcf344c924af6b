-- SUMMARY: Column specifications and the columns they stand for.
import QueryCompiler.Column.InlineAlias
import QueryCompiler.Error
import QueryCompiler.Query.Basic

/-!
# Column specifications

A specification is a text that stands for columns of the select list:

* `name` or `name as alias`, one column;
* `source.{ entry, entry, … }`, one column for each entry, which is again a
  `name` or a `name as alias`;
* `raw:` and any text, which is taken as it is.

Braces have no other use, so a specification with braces that is no shorthand
is refused.
-/

namespace QueryCompiler

namespace Specification

def openingBrace : Char := '\x7b'

def closingBrace : Char := '\x7d'

/-- A column that a specification stands for, or its text as it is. -/
inductive Item where
  | column (column : Column)
  | raw (fragment : Fragment)
deriving DecidableEq, Repr

/-! ## Pieces -/

/-- Whether a text has a brace. -/
def hasBrace (cs : List Char) : Bool :=
  cs.any fun c => c = openingBrace || c = closingBrace

/-- The pieces of a text between its commas. -/
def pieces : List Char → List (List Char)
  | [] => [[]]
  | c :: rest =>
    if c = ',' then [] :: pieces rest
    else
      match pieces rest with
      | [] => [[c]]
      | piece :: more => (c :: piece) :: more

/-- `^(.*?)\.\{(.*)\}$`, where a dot that is not escaped is any character. -/
def blockPattern : Text.Pattern :=
  [.start, .group (.many 0 false Text.anyChar), .one (· = '.'), .one (· = openingBrace),
    .group (.many 0 true Text.anyChar), .one (· = closingBrace), .finish]

/-- The source and the body of a shorthand. -/
def block? (cs : List Char) : Option (List Char × List Char) :=
  match blockPattern.captures? cs with
  | some [source, body] => some (source, body)
  | _ => none

/-- What follows the mark of a raw specification. -/
def afterRawMark? : List Char → Option (List Char)
  | 'r' :: 'a' :: 'w' :: ':' :: rest => some rest
  | _ => none

/-! ## Expansion -/

/-- A column from `name` or `name as alias`. -/
def column (source : Option String) (text : List Char) : Column :=
  let (name, aliasName) := InlineAlias.split text
  ⟨source, String.ofList name, aliasName.map String.ofList⟩

/-- The column of one entry of a shorthand. -/
def entry (spec : String) (source : String) (text : List Char) : Except CompileError Item :=
  let text := Text.trim text
  if text.isEmpty then .error (.badShorthand spec .emptyEntry)
  else .ok (.column (column (some source) text))

/-- The columns of a shorthand. -/
def expandBlock (spec : String) (source body : List Char) : Except CompileError (List Item) :=
  let source := Text.trim source
  if source.isEmpty then .error (.badShorthand spec .emptyPrefix)
  else if hasBrace source || hasBrace body then .error (.badShorthand spec .strayBrace)
  else (pieces body).mapM (entry spec (String.ofList source))

/-- The columns of a specification without the raw mark, given without blanks around it. -/
def expandTrimmed (spec : String) (cs : List Char) : Except CompileError (List Item) :=
  if cs.isEmpty then .error (.blankName .select)
  else
    match block? cs with
    | some (source, body) => expandBlock spec source body
    | none =>
      if hasBrace cs then .error (.badShorthand spec .unbalancedBraces)
      else .ok [.column (column none cs)]

/-- The columns that a specification stands for. -/
def expand (spec : String) : Except CompileError (List Item) :=
  match afterRawMark? spec.toList with
  | some text => .ok [.raw ⟨String.ofList text, []⟩]
  | none => expandTrimmed spec (Text.trim spec.toList)

end Specification

end QueryCompiler
